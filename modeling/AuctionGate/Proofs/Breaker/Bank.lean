import AuctionGate.Breaker.Watch
import AuctionGate.Proofs.Agenda
import AuctionGate.Proofs.Breaker.Registry
import AuctionGate.Proofs.Breaker.Stamped
import Mathlib.Logic.Function.Basic

/-!
# Banks of breakers without timers

A bank has stamped breakers by key where a watch has a registry and timers. The same can be done
with both, and of both the same can be seen after every act.

A diary is a stamped breaker with what observers have heard of it. The breaker of a key `Mirrors`
one if it tracks the stamped breaker and every recorder has heard the same. A step of the breaker
keeps that, and steps for other keys do not touch it.
-/

namespace AuctionGate

open Breaker

/-- What is done with breakers on a clock. -/
inductive Act where
  | begin (key id : String)
  | finish (id : String) (succeeded : Bool)
  | drop (id : String)
  | advance (ms : Nat)
  deriving DecidableEq, Repr

/-- What is seen after an act: the answer if leave was asked for, and the breaker of one key. -/
structure View where
  leave : Option Permit
  state : State
  failures : Nat
  heard : List (Nat × Transition)
  deriving DecidableEq, Repr

namespace Watch

def act (w : Watch) : Act → Watch × Option Permit
  | .begin key id => ((w.begin key id).1, (w.allow key).2)
  | .finish id succeeded => ((w.finish? id succeeded).getD w, none)
  | .drop id => ((w.finish? id false).getD w, none)
  | .advance ms => (w.advance ms, none)

/-- What is seen of a key, with what the recorder in a place heard. -/
def view (w : Watch) (key : String) (place : Nat) (leave : Option Permit) : View :=
  ⟨leave, (w.registry.breaker key).state, (w.registry.breaker key).failures.toNat,
    w.registry.heardBy key place⟩

def views (key : String) (place : Nat) : Watch → List Act → List View
  | _, [] => []
  | w, a :: as => (w.act a).1.view key place (w.act a).2 :: (w.act a).1.views key place as

end Watch

/-- A stamped breaker with what observers have heard of it, the latest first. -/
structure Diary where
  breaker : Stamped := {}
  heard : List (Nat × Transition) := []

def Diary.enter (d : Diary) (f : Stamped → Stamped × List (Nat × Transition)) : Diary :=
  ⟨(f d.breaker).1, (f d.breaker).2 ++ d.heard⟩

/-- Stamped breakers by key on a clock, with the calls that are out. -/
structure Bank where
  now : Nat := 0
  diaries : String → Diary := fun _ => {}
  calls : List InFlight := []

namespace Bank

def normalise (c : Config) (now : Nat) (s : Bank) : Bank :=
  { s with now, diaries := fun key => (s.diaries key).enter (Stamped.normalise c now) }

def begin (s : Bank) (key id : String) : Bank × Option Permit :=
  match (s.diaries key).breaker.allow with
  | none => (s, none)
  | some (p, r) =>
    ({ s with
        diaries := Function.update s.diaries key ⟨r, (s.diaries key).heard⟩
        calls := s.calls ++ [⟨id, key, p⟩] }, some p)

def finish (c : Config) (s : Bank) (id : String) (succeeded : Bool) : Bank :=
  match s.calls.find? (·.id = id) with
  | none => s
  | some f =>
    { s with
      diaries := Function.update s.diaries f.key
        ((s.diaries f.key).enter (Stamped.settle c s.now f.permit succeeded))
      calls := s.calls.eraseP (·.id = id) }

/-- Before every act at a time the breakers make up for what has fallen due by then. -/
def act (c : Config) (s : Bank) : Act → Bank × Option Permit
  | .begin key id => (s.normalise c s.now).begin key id
  | .finish id succeeded => ((s.normalise c s.now).finish c id succeeded, none)
  | .drop id => ((s.normalise c s.now).finish c id false, none)
  | .advance ms => (s.normalise c (s.now + ms), none)

def view (s : Bank) (key : String) (leave : Option Permit) : View :=
  ⟨leave, (s.diaries key).breaker.state, (s.diaries key).breaker.failures, (s.diaries key).heard⟩

def views (c : Config) (key : String) : Bank → List Act → List View
  | _, [] => []
  | s, a :: as => (s.act c a).1.view key (s.act c a).2 :: (s.act c a).1.views c key as

end Bank

/-- The timers of the breaker of a key. -/
def timersOf (key : String) (entries : List (Nat × String × Timer)) : List (Nat × Timer) :=
  (entries.filter (·.2.1 = key)).map fun e => (e.1, e.2.2)

def probesOut (key : String) (calls : List InFlight) : Nat :=
  calls.countP fun f => f.key = key && f.permit.probe

/-- The breaker of a key tracks the one in a diary, and recorders heard what stands there. -/
structure Mirrors (c : Config) (r : Registry) (timers : List (Nat × Timer)) (key : String)
    (d : Diary) : Prop where
  tracks : d.breaker.Tracks c (r.breaker key) timers
  heard : ∀ i : Nat, r.observers[i]? = some .recorder → r.heardBy key i = d.heard

variable {c : Config} {r : Registry} {key k : String} {d : Diary} {now : Nat} {s : Step}
  {timers timers' : List (Nat × Timer)} {entries : List (Nat × String × Timer)}
  {f : Stamped → Stamped × List (Nat × Transition)}

section Timers

theorem timersOf_append (key : String) (l l' : List (Nat × String × Timer)) :
    timersOf key (l ++ l') = timersOf key l ++ timersOf key l' := by
  simp only [timersOf, List.filter_append, List.map_append]

theorem timersOf_cons_self (due : Nat) (key : String) (t : Timer)
    (l : List (Nat × String × Timer)) :
    timersOf key ((due, key, t) :: l) = (due, t) :: timersOf key l := by
  simp [timersOf]

theorem timersOf_cons_of_ne (due : Nat) (t : Timer) (l : List (Nat × String × Timer))
    (h : k ≠ key) : timersOf k ((due, key, t) :: l) = timersOf k l := by
  simp [timersOf, h.symm]

theorem mem_timersOf {due : Nat} {t : Timer} :
    (due, t) ∈ timersOf key entries ↔ (due, key, t) ∈ entries := by
  simp only [timersOf, List.mem_map, List.mem_filter, decide_eq_true_eq]
  constructor
  · rintro ⟨⟨due', key', t'⟩, ⟨he, rfl⟩, heq⟩
    cases heq
    exact he
  · exact fun he => ⟨_, ⟨he, rfl⟩, rfl⟩

theorem edit_idle {t : Registry.Turn} (a : Agenda (String × Timer)) (hstop : t.stopped = none)
    (hstart : t.started = none) : a.edit (Watch.edit t) = a := by
  rw [Agenda.edit_of_strikes_none fun u => by simp [Watch.edit, hstop]]
  simp [Watch.edit, hstart]

theorem edit_allow (a : Agenda (String × Timer)) (r : Registry) (key : String) :
    a.edit (Watch.edit (r.allow key).1) = a := by
  obtain ⟨breakers, told, ht⟩ := r.allow_turn key
  exact edit_idle a (by rw [ht]) (by rw [ht])

theorem edit_ring (a : Agenda (String × Timer)) (due : Nat) (u : String × Timer)
    (s : Registry × Journal) : a.edit (Watch.ring due u s).2 = a := by
  have hstops := fire_stops (s.1.breaker u.1) u.2
  refine edit_idle a ?_ ?_
  · rw [Registry.fire, Registry.carry_stopped, hstops]
    rfl
  · rw [Registry.fire, Registry.carry_started, (fire_follows _ _).started_eq_none hstops]
    rfl

/-- A turn strikes out the timers of the key it stops, and starts at most one. -/
theorem timersOf_edit (key : String) (t : Registry.Turn) (a : Agenda (String × Timer)) :
    timersOf key (a.edit (Watch.edit t)).entries
      = (if t.stopped = some key then [] else timersOf key a.entries)
        ++ ((t.started.filter (·.key = key)).map fun u => (u.due, u.timer)).toList := by
  have hkept : timersOf key (a.entries.filter fun w => !(Watch.edit t).strikes w.2)
      = if t.stopped = some key then [] else timersOf key a.entries := by
    simp only [timersOf, List.filter_filter, Watch.edit]
    split_ifs with hstop
    · simp only [List.map_eq_nil_iff, List.filter_eq_nil_iff]
      intro e _
      by_cases he : e.2.1 = key <;> simp [he, hstop]
    · refine congrArg _ (List.filter_congr fun e _ => ?_)
      by_cases he : e.2.1 = key <;> simp [he, hstop]
  rw [Agenda.edit, timersOf_append, hkept]
  rcases hstart : t.started with _ | u
  · simp [Watch.edit, hstart, timersOf]
  · by_cases hu : u.key = key <;> simp [Watch.edit, hstart, timersOf, Option.filter, hu]

/-- A step's timer takes the place of those of its key. -/
theorem timersOf_carry (hs : s.stops = false → s.started = none) (a : Agenda (String × Timer)) :
    timersOf key (a.edit (Watch.edit (r.carry now key s))).entries
      = Stamped.timersAfter now (timersOf key a.entries) s := by
  rw [timersOf_edit, Stamped.timersAfter, Registry.carry_stopped, Registry.carry_started]
  cases hstop : s.stops with
  | false => simp [hs hstop]
  | true => cases s.started <;> simp [Option.filter]

theorem timersOf_carry_of_ne (h : k ≠ key) (a : Agenda (String × Timer)) :
    timersOf k (a.edit (Watch.edit (r.carry now key s))).entries = timersOf k a.entries := by
  rw [timersOf_edit, Registry.carry_stopped, Registry.carry_started]
  cases s.stops <;> cases s.started <;> simp [Option.filter, h.symm]

theorem settle_ahead (hc : c.fault? = none) {p : Permit} {succeeded : Bool} {br : Breaker}
    (a : Agenda (String × Timer)) (ha : ∀ e ∈ a.entries, now < e.1) :
    ∀ e ∈ (a.edit (Watch.edit (r.carry now key (br.settle c p succeeded)))).entries, now < e.1 := by
  intro e he
  rcases List.mem_append.1 he with he | he
  · exact ha e (List.mem_filter.1 he).1
  · obtain ⟨u, hu, rfl⟩ := List.mem_map.1 he
    rw [Registry.carry_started, Option.mem_toList, Option.map_eq_some_iff] at hu
    obtain ⟨⟨delay, t⟩, hs, rfl⟩ := hu
    have hpos : 0 < delay.toNat := by
      rcases settle_delay hs with rfl | rfl
      · exact (delays_pos hc).1
      · exact (delays_pos hc).2
    exact Nat.lt_add_of_pos_right hpos

end Timers

section Calls

variable {w : Watch} {id : String}

theorem probesOut_append (key : String) (calls : List InFlight) (f : InFlight) :
    probesOut key (calls ++ [f])
      = probesOut key calls + (f.key = key && f.permit.probe).toNat := by
  rw [probesOut, List.countP_append, List.countP_singleton]
  cases (f.key = key && f.permit.probe) <;> rfl

theorem probesOut_eraseP (key : String) {p : InFlight → Bool} {calls : List InFlight}
    {f : InFlight} (h : calls.find? p = some f) :
    probesOut key (calls.eraseP p) + (f.key = key && f.permit.probe).toNat
      = probesOut key calls := by
  obtain ⟨hp, before, after, rfl, hne⟩ := List.find?_eq_some_iff_append.1 h
  rw [List.eraseP_append_right _ (fun a ha => by simpa using hne a ha),
    List.eraseP_cons_of_pos hp, probesOut, probesOut, List.countP_append, List.countP_append,
    List.countP_cons]
  cases (f.key = key && f.permit.probe) <;> simp
  omega

theorem begin_of_none (h : (w.allow key).2 = none) :
    w.begin key id = ((w.allow key).1, false) := by
  unfold Watch.begin
  rcases hw : w.allow key with ⟨w', p⟩
  rw [hw] at h
  subst h
  rfl

theorem begin_of_some {p : Permit} (h : (w.allow key).2 = some p) :
    w.begin key id
      = ({ (w.allow key).1 with calls := (w.allow key).1.calls ++ [⟨id, key, p⟩] }, true) := by
  unfold Watch.begin
  rcases hw : w.allow key with ⟨w', p'⟩
  rw [hw] at h
  subst h
  rfl

end Calls

section Mirrors

theorem mirrors_new (c : Config) (observers : List Observer) (pool : Option Pool) (key : String) :
    Mirrors c { config := c, observers, pool } [] key {} :=
  ⟨Stamped.tracks_new c, fun _ _ => rfl⟩

theorem Mirrors.carry (h : Mirrors c r timers key d) (hk : r.Knows key)
    (ha : Stamped.Agrees c now timers' s (f d.breaker)) :
    Mirrors c (r.carry now key s).registry (Stamped.timersAfter now timers' s) key (d.enter f) where
  tracks := by
    rw [Registry.breaker_carry_self hk]
    exact ha.tracks
  heard i hi := by
    rw [Registry.carry_observers] at hi
    rw [Registry.heardBy_carry hi, if_pos rfl, h.heard i hi]
    exact congrArg (· ++ d.heard) ha.heard

/-- A step of one key is not seen by another. -/
theorem Mirrors.carry_of_ne (h : Mirrors c r timers k d) (hne : k ≠ key) :
    Mirrors c (r.carry now key s).registry timers k d where
  tracks := by
    rw [Registry.breaker_carry_of_ne hne]
    exact h.tracks
  heard i hi := by
    rw [Registry.carry_observers] at hi
    rw [Registry.heardBy_carry hi, if_neg hne]
    exact h.heard i hi

/-- Asking for leave is seen by the one breaker that gives it only. -/
theorem Mirrors.allow (h : Mirrors c r timers k d) {q : Stamped}
    (hq : q.Tracks c ((r.allow key).1.registry.breaker k) timers) :
    Mirrors c (r.allow key).1.registry timers k ⟨q, d.heard⟩ where
  tracks := hq
  heard i hi := by
    rw [Registry.allow_observers] at hi
    rw [Registry.heardBy_allow]
    exact h.heard i hi

theorem Mirrors.allow_same (h : Mirrors c r timers k d)
    (hb : (r.allow key).1.registry.breaker k = r.breaker k) :
    Mirrors c (r.allow key).1.registry timers k d :=
  h.allow (by rw [hb]; exact h.tracks)

theorem Mirrors.normalise_ahead {limit : Nat} (h : Mirrors c r timers key d)
    (ha : ∀ e ∈ timers, limit < e.1) : d.enter (Stamped.normalise c limit) = d := by
  rw [Diary.enter, h.tracks.normalise_ahead ha]
  rfl

/-- A breaker has one timer at most, and it is due when the stamped one makes up for it. -/
theorem Mirrors.timer {due : Nat} {t : Timer} {before after : List (Nat × String × Timer)}
    (h : Mirrors c r (timersOf key (before ++ (due, key, t) :: after)) key d) :
    t ∈ (r.breaker key).awaited ∧ due = d.breaker.due c
      ∧ timersOf key (before ++ after) = [] := by
  have ht := h.tracks.timers
  rw [timersOf_append, timersOf_cons_self] at ht
  have hmem : (due, t) ∈ (r.breaker key).awaited.map (d.breaker.due c, ·) := by
    rw [← ht]
    exact List.mem_append_right _ List.mem_cons_self
  obtain ⟨t', ht', heq⟩ := List.mem_map.1 hmem
  cases heq
  refine ⟨ht', rfl, ?_⟩
  rw [awaited_eq_singleton ht', List.map_singleton] at ht
  have hlen := congrArg List.length ht
  simp only [List.length_append, List.length_cons, List.length_nil] at hlen
  have hbefore : timersOf key before = [] := List.length_eq_zero_iff.1 (by omega)
  have hafter : timersOf key after = [] := List.length_eq_zero_iff.1 (by omega)
  rw [timersOf_append, hbefore, hafter]
  rfl

end Mirrors

end AuctionGate
