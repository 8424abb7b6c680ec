import AuctionGate.Pool.Basic

/-!
# Periodic refresh

A refresher ticks one interval after it was spawned and then every interval. It does not own the
pool. At a tick it asks for it: as long as the pool has an owner, the refresher is one more for as
long as it takes to refresh the pool; once the pool has none, the refresher ends.

A refresher whose first tick cannot be told as a time, or whose interval is zero, dies when it is
spawned.
-/

namespace AuctionGate

/-- Whole seconds that an instant can count. -/
def maxInstantSeconds : Nat := UInt64.size / 2 - 1

structure Refresher where
  interval : Nat
  /-- The time of the next tick; none once it has ended. -/
  next : Option Nat
  pos : next ≠ none → 0 < interval
  deriving DecidableEq, Repr

namespace Refresher

def ended (interval : Nat) : Refresher := ⟨interval, none, fun h => absurd rfl h⟩

def spawn (now interval : Nat) : Refresher :=
  if h : interval = 0 ∨ maxInstantSeconds < (now + interval) / 1000 then ended interval
  else ⟨interval, some (now + interval), fun _ => Nat.pos_of_ne_zero fun h0 => h (.inl h0)⟩

def abort (f : Refresher) : Refresher := ended f.interval

/-- Waits for the next tick. -/
def rearm (f : Refresher) : Refresher where
  interval := f.interval
  next := f.next.map (· + f.interval)
  pos h := f.pos fun hnone => h (by rw [hnone, Option.map_none])

/-- The time that a refresher has left for its ticks. -/
def left (limit : Nat) (f : Refresher) : Nat := f.next.elim 0 (limit + 1 - ·)

theorem left_rearm {f : Refresher} {t limit : Nat} (h : f.next = some t) (ht : t ≤ limit) :
    f.rearm.left limit < f.left limit := by
  have hpos := f.pos (by simp [h])
  simp only [left, rearm, h, Option.map_some, Option.elim_some]
  omega

theorem left_abort {f : Refresher} {t limit : Nat} (h : f.next = some t) (ht : t ≤ limit) :
    f.abort.left limit < f.left limit := by
  simp only [left, abort, ended, h, Option.elim_none, Option.elim_some]
  omega

/-- The earliest tick of some refreshers, with the number of the one that ticks. -/
def nextTick? (fs : List Refresher) : Option (Nat × Nat) :=
  (fs.zipIdx.filterMap fun x => x.1.next.map (·, x.2)).minOn? (·.1)

theorem next_of_nextTick {fs : List Refresher} {t n : Nat} (h : nextTick? fs = some (t, n)) :
    ∃ f, fs[n]? = some f ∧ f.next = some t := by
  obtain ⟨x, hx, hnext⟩ := List.mem_filterMap.1 (List.minOn?_mem h)
  obtain ⟨t', hf, heq⟩ := Option.map_eq_some_iff.1 hnext
  obtain ⟨rfl, rfl⟩ := Prod.mk.inj heq
  exact ⟨x.1, List.mem_zipIdx_iff_getElem?.1 hx, hf⟩

/-- The time that several refreshers have left for their ticks. -/
def allLeft (limit : Nat) (fs : List Refresher) : Nat := fs.foldr (fun f n => f.left limit + n) 0

theorem allLeft_modify {limit : Nat} {g : Refresher → Refresher} {f : Refresher}
    (hg : (g f).left limit < f.left limit) : ∀ (fs : List Refresher) (n : Nat), fs[n]? = some f →
      allLeft limit (fs.modify n g) < allLeft limit fs
  | f' :: fs, 0, h => by
    obtain rfl := Option.some.inj h
    exact Nat.add_lt_add_right hg _
  | f' :: fs, n + 1, h => Nat.add_lt_add_left (allLeft_modify hg fs n (by simpa using h)) _

end Refresher

/-- A pool that has an owner. -/
structure Holding where
  pool : Pool
  /-- How many other owners there are. -/
  others : Nat
  deriving DecidableEq, Repr

/-- A pool as long as it has owners, with the refreshers spawned for it in their order. -/
structure Rotation where
  now : Nat
  held : Option Holding
  tasks : List Refresher
  journal : Journal
  deriving DecidableEq, Repr

namespace Rotation

def ofPool (p : Pool) : Rotation :=
  ⟨0, some ⟨p, 0⟩, [], [.poolReady p.name p.configured.length]⟩

def pool (r : Rotation) : Option Pool := r.held.map (·.pool)

/-- The refreshers, the latest first. -/
def refreshers (r : Rotation) : List Refresher := r.tasks.reverse

/-- The pool takes a turn, and the journal is told of it. -/
def turned (r : Rotation) (t : Pool.Turn) : Rotation :=
  { r with
    held := r.held.map fun h => { h with pool := t.pool }
    journal := r.journal.note t.told }

/-- An operation on the pool, while it has an owner. -/
def turn? (f : Pool → Pool.Turn) (r : Rotation) : Option (Bool × Rotation) :=
  r.pool.map fun p => ((f p).answer, r.turned (f p))

/-- The pool gets one more owner, if it has any. -/
def share (r : Rotation) : Rotation :=
  { r with held := r.held.map fun h => { h with others := h.others + 1 } }

/-- An owner lets go of the pool. -/
def drop (r : Rotation) : Rotation :=
  { r with
    held := r.held.bind fun h =>
      match h.others with
      | 0 => none
      | n + 1 => some { h with others := n } }

/-- Refreshes the pool as one more owner; none if there is no owner left. -/
def refresh? (r : Rotation) : Option Rotation :=
  (r.share.turn? Pool.refresh).map fun x => x.2.drop

/-- A tick of a refresher. -/
def tick (r : Rotation) (t n : Nat) : Rotation :=
  match r.refresh? with
  | some r' => { r' with now := t, tasks := r.tasks.modify n Refresher.rearm }
  | none => { r with now := t, tasks := r.tasks.modify n Refresher.abort }

theorem left_tick {r : Rotation} {limit t n : Nat} (h : Refresher.nextTick? r.tasks = some (t, n))
    (ht : t ≤ limit) :
    Refresher.allLeft limit (r.tick t n).tasks < Refresher.allLeft limit r.tasks := by
  obtain ⟨f, hf, hnext⟩ := Refresher.next_of_nextTick h
  unfold tick
  split
  · exact Refresher.allLeft_modify (Refresher.left_rearm hnext ht) r.tasks n hf
  · exact Refresher.allLeft_modify (Refresher.left_abort hnext ht) r.tasks n hf

/-- Lets time pass up to a limit, each tick at its own time. -/
def elapse (limit : Nat) (r : Rotation) : Rotation :=
  match _ : Refresher.nextTick? r.tasks with
  | none => { r with now := limit }
  | some (t, n) => if _ : t ≤ limit then (r.tick t n).elapse limit else { r with now := limit }
termination_by Refresher.allLeft limit r.tasks
decreasing_by exact left_tick ‹_› ‹_›

def advance (r : Rotation) (ms : Nat) : Rotation := r.elapse (r.now + ms)

def spawnRefresh (r : Rotation) (interval : Nat) : Rotation :=
  { r with tasks := r.tasks ++ [Refresher.spawn r.now interval] }

def abortTask (r : Rotation) (n : Nat) : Rotation :=
  { r with tasks := r.tasks.modify n Refresher.abort }

/-- Aborts the latest refresher. -/
def abortRefresh (r : Rotation) : Rotation := r.abortTask (r.tasks.length - 1)

end Rotation

end AuctionGate
