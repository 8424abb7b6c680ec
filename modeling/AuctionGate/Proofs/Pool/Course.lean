import AuctionGate.Proofs.Pool.Passage
import Mathlib.Tactic.SplitIfs

/-!
# The course of a pool

A pool is operated on, refreshers are spawned and aborted, time passes, and owners hand the pool on
and let go of it until the last one has. What is done to the pool, by callers and by refreshers, is
a list of deeds: each says when it is done, by whom and what it is. The journal and the pool are
what the deeds make them (`play_does`), and a refresher does something exactly at the multiples of
its interval up to the time when it is aborted or the pool loses its last owner (`timesOf_course`).
-/

namespace AuctionGate

namespace Rotation

/-- What can happen to a pool with refreshers. -/
inductive Event where
  | operate (o : Pool.Operation)
  | advance (ms : Nat)
  | spawn (interval : Nat)
  /-- The refreshers are numbered in the order in which they were spawned. -/
  | abort (n : Nat)
  /-- An owner hands the pool on, and keeps it. -/
  | share
  /-- An owner lets go of the pool. -/
  | drop
  deriving DecidableEq

/-- Only an owner can spawn a refresher. -/
def act (r : Rotation) : Event → Rotation
  | .operate o => r.operate o
  | .advance ms => r.advance ms
  | .spawn interval => if r.pool.isSome then r.spawnRefresh interval else r
  | .abort n => r.abortTask n
  | .share => r.share
  | .drop => r.drop

def play (r : Rotation) (es : List Event) : Rotation := es.foldl act r

/-- Something that is done to a pool. -/
structure Deed where
  time : Nat
  /-- The number of the refresher that does it; none if it is not done by a refresher. -/
  task : Option Nat
  operation : Pool.Operation
  deriving DecidableEq

/-- What is done to the pool, if it has an owner. -/
def deeds (r : Rotation) : Event → List Deed
  | .operate o => if r.pool.isSome then [⟨r.now, none, o⟩] else []
  | .advance ms =>
    if r.pool.isSome then (r.trail (r.now + ms)).map fun x => ⟨x.1, some x.2, .refresh⟩ else []
  | _ => []

/-- All that is done to the pool in the course of events. -/
def course (r : Rotation) : List Event → List Deed
  | [] => []
  | e :: es => r.deeds e ++ course (r.act e) es

/-- The times at which a refresher does something. -/
def timesOf (n : Nat) (ds : List Deed) : List Nat := (ds.filter (·.task = some n)).map (·.time)

/-- The time after events. -/
def clock (now : Nat) : List Event → Nat
  | [] => now
  | .advance ms :: es => clock (now + ms) es
  | _ :: es => clock now es

/-- How many owners there are after an event; once there are none there will not be any. -/
def Event.owners (k : Nat) : Event → Nat
  | share => if k = 0 then 0 else k + 1
  | drop => k - 1
  | _ => k

/-- How many owners there are after events. -/
def ownersAfter (k : Nat) (es : List Event) : Nat := es.foldl Event.owners k

/-- The time up to which the pool is owned and a refresher is not aborted. -/
def lasting (n k now : Nat) : List Event → Nat
  | [] => now
  | .advance ms :: es => lasting n k (now + ms) es
  | .abort m :: es => if m = n then now else lasting n k now es
  | e :: es => if e.owners k = 0 then now else lasting n (e.owners k) now es

end Rotation

namespace Rotation

open Refresher

variable {r : Rotation} {p : Pool} {e : Event} {n interval : Nat} {f : Refresher}

/-! ## Who owns the pool -/

section Owners

theorem owners_share (r : Rotation) : r.share.owners = Event.share.owners r.owners := by
  rw [owners, owners, share]
  cases r.held <;> rfl

theorem owners_drop (r : Rotation) : r.drop.owners = Event.drop.owners r.owners := by
  rcases r with ⟨now, _ | ⟨p, _ | k⟩, tasks, journal⟩ <;> rfl

theorem ownersAfter_zero : ∀ es : List Event, ownersAfter 0 es = 0
  | [] => rfl
  | e :: es => by
    have he : e.owners 0 = 0 := by cases e <;> rfl
    rw [ownersAfter, List.foldl_cons, he]
    exact ownersAfter_zero es

theorem ownersAfter_cons (k : Nat) (e : Event) (es : List Event) :
    ownersAfter k (e :: es) = ownersAfter (e.owners k) es := rfl

theorem ownersAfter_append (k : Nat) (es es' : List Event) :
    ownersAfter k (es ++ es') = ownersAfter (ownersAfter k es) es' := List.foldl_append

end Owners

/-! ## What is done -/

section Done

theorem advance_now (r : Rotation) (ms : Nat) : (r.advance ms).now = r.now + ms := r.elapse_now _

theorem advance_owners (r : Rotation) (ms : Nat) : (r.advance ms).owners = r.owners := by
  rcases h : r.pool with _ | p
  · rw [advance, elapse_bereft h]
    rfl
  · rw [advance, elapse_owned h]
    exact run_owners ..

theorem spawn_pool (r : Rotation) (interval : Nat) :
    (r.act (.spawn interval)).held = r.held ∧ (r.act (.spawn interval)).journal = r.journal
      ∧ (r.act (.spawn interval)).now = r.now := by
  simp only [act]
  split_ifs <;> exact ⟨rfl, rfl, rfl⟩

theorem act_owners (r : Rotation) (e : Event) : (r.act e).owners = e.owners r.owners := by
  cases e with
  | operate o => exact r.operate_owners o
  | advance ms => exact r.advance_owners ms
  | spawn interval => exact congrArg (·.elim 0 (·.others + 1)) (r.spawn_pool interval).1
  | abort n => rfl
  | share => exact r.owners_share
  | drop => exact r.owners_drop

theorem play_owners : ∀ (es : List Event) (r : Rotation),
    (r.play es).owners = ownersAfter r.owners es
  | [], _ => rfl
  | e :: es, r => by
    rw [play, List.foldl_cons, ← play, play_owners es, act_owners]
    rfl

/-- An event does to the pool and tells the journal what its deeds say, and it takes nothing but the
last owner's letting go to take the pool away. -/
theorem act_does (r : Rotation) (e : Event) :
    (r.act e).journal = (r.run ((r.deeds e).map (·.operation))).journal
      ∧ ((r.act e).owners ≠ 0 →
        (r.act e).pool = (r.run ((r.deeds e).map (·.operation))).pool) := by
  cases e with
  | operate o =>
    rcases h : r.pool with _ | p
    · simp [act, deeds, h, operate_none h, run]
    · simp [act, deeds, h, run]
  | advance ms =>
    rcases h : r.pool with _ | p
    · rw [act, advance, elapse_bereft h, deeds, h]
      exact ⟨rfl, fun _ => rfl⟩
    · have hops : (r.deeds (.advance ms)).map (·.operation)
          = (r.trail (r.now + ms)).map fun _ => .refresh := by
        simp [deeds, h, Function.comp_def]
      rw [hops, act, advance, elapse_owned h]
      exact ⟨rfl, fun _ => rfl⟩
  | spawn interval =>
    obtain ⟨hheld, hjournal, -⟩ := r.spawn_pool interval
    exact ⟨hjournal, fun _ => congrArg (·.map (·.pool)) hheld⟩
  | abort n => exact ⟨rfl, fun _ => rfl⟩
  | share => exact ⟨rfl, fun _ => r.share_pool⟩
  | drop => exact ⟨rfl, drop_pool⟩

theorem act_owned (h : r.pool = some p) (he : (r.act e).owners ≠ 0) :
    (r.act e).pool = some (p.after ((r.deeds e).map (·.operation))) := by
  rw [(r.act_does e).2 he, run_pool _ h]

theorem act_none (h : r.pool = none) (e : Event) : (r.act e).pool = none := by
  rw [← owners_eq_zero] at h ⊢
  rw [act_owners, h]
  cases e <;> rfl

theorem deeds_none (h : r.pool = none) (e : Event) : r.deeds e = [] := by
  cases e <;> simp [deeds, h]

theorem course_none : ∀ (es : List Event) {r : Rotation}, r.pool = none → r.course es = []
  | [], _, _ => rfl
  | e :: es, _, h => by rw [course, deeds_none h, course_none es (act_none h e), List.nil_append]

theorem course_append : ∀ (es es' : List Event) (r : Rotation),
    r.course (es ++ es') = r.course es ++ (r.play es).course es'
  | [], _, _ => rfl
  | e :: es, es', r => by
    rw [List.cons_append, course, course, course_append es es' (r.act e), List.append_assoc]
    rfl

theorem play_append (r : Rotation) (es es' : List Event) :
    r.play (es ++ es') = (r.play es).play es' := List.foldl_append

/-- All that is done to the pool, and all that the journal is told, is in the course of events. -/
theorem play_does : ∀ (es : List Event) (r : Rotation),
    (r.play es).journal = (r.run ((r.course es).map (·.operation))).journal
      ∧ ((r.play es).owners ≠ 0 →
        (r.play es).pool = (r.run ((r.course es).map (·.operation))).pool)
  | [], _ => ⟨rfl, fun _ => rfl⟩
  | e :: es, r => by
    obtain ⟨hjournal, hpool⟩ := r.act_does e
    obtain ⟨hjournal', hpool'⟩ := play_does es (r.act e)
    rw [course, List.map_append, run_append]
    by_cases he : (r.act e).owners = 0
    -- what follows the loss of the pool is not done to it
    · have hgone : (r.act e).course es = [] := course_none es (owners_eq_zero.1 he)
      rw [hgone] at hjournal' ⊢
      refine ⟨hjournal'.trans hjournal, fun h => absurd ?_ h⟩
      show ((r.act e).play es).owners = 0
      rw [play_owners, he, ownersAfter_zero]
    · obtain ⟨hruns, hnotes⟩ :=
        run_congr (((r.act e).course es).map (·.operation)) (hpool he) hjournal
      exact ⟨hjournal'.trans hnotes, fun h => (hpool' h).trans hruns⟩

theorem play_now : ∀ (es : List Event) (r : Rotation), (r.play es).now = clock r.now es
  | [], _ => rfl
  | .operate o :: es, r => (play_now es _).trans (congrArg (clock · es) (r.operate_now o))
  | .advance ms :: es, r => (play_now es _).trans (congrArg (clock · es) (r.advance_now ms))
  | .spawn i :: es, r => (play_now es _).trans (congrArg (clock · es) (r.spawn_pool i).2.2)
  | .abort _ :: es, _ => play_now es _
  | .share :: es, _ => play_now es _
  | .drop :: es, _ => play_now es _

end Done

/-! ## Who does it, and when -/

section Tasks

theorem tasks_owned (h : r.pool = some p) (ms : Nat) :
    (r.advance ms).tasks = r.tasks.map (·.elapse (r.now + ms)) := by
  rw [advance, elapse_owned h]

theorem tasks_bereft (h : r.pool = none) (ms : Nat) :
    (r.advance ms).tasks = r.tasks.map (·.bereft (r.now + ms)) := by
  rw [advance, elapse_bereft h]

theorem tasks_spawn (h : r.pool = some p) (interval : Nat) :
    (r.act (.spawn interval)).tasks = r.tasks ++ [.spawn r.now interval] := by
  simp only [act, h, Option.isSome_some, if_true]
  rfl

theorem tasks_spawn_bereft (h : r.pool = none) (interval : Nat) : r.act (.spawn interval) = r := by
  simp [act, h]

/-- Events only add refreshers. -/
theorem le_length_tasks (r : Rotation) (e : Event) : r.tasks.length ≤ (r.act e).tasks.length := by
  cases e with
  | operate o => exact (congrArg List.length (r.operate_tasks o)).ge
  | advance ms =>
    rcases h : r.pool with _ | p
    · rw [act, tasks_bereft h, List.length_map]
    · rw [act, tasks_owned h, List.length_map]
  | spawn interval =>
    rcases h : r.pool with _ | p
    · rw [tasks_spawn_bereft h]
    · rw [tasks_spawn h, List.length_append]
      omega
  | abort n => exact (List.length_modify ..).ge
  | share | drop => exact Nat.le_refl _

theorem le_length_play : ∀ (es : List Event) (r : Rotation),
    r.tasks.length ≤ (r.play es).tasks.length
  | [], _ => Nat.le_refl _
  | e :: es, r => (r.le_length_tasks e).trans (le_length_play es _)

/-- The deeds of a refresher in one event are its ticks. -/
theorem timesOf_deeds (r : Rotation) (e : Event) (n : Nat) :
    timesOf n (r.deeds e)
      = match e with
        | .advance ms => if r.pool.isSome
            then (r.tasks[n]?.map (·.ticks (r.now + ms))).getD [] else []
        | _ => [] := by
  cases e with
  | operate o => cases h : r.pool <;> simp [timesOf, deeds, h]
  | advance ms =>
    rcases h : r.pool with _ | p
    · simp [timesOf, deeds, h]
    · simp only [timesOf, deeds, h, Option.isSome_some, if_true, ← times_trail h, List.filter_map,
        List.map_map, Function.comp_def, Option.some.injEq]
  | _ => rfl

/-- What an event makes of a refresher. -/
def fate (r : Rotation) (n : Nat) (f : Refresher) : Event → Refresher
  | .advance ms => if r.pool.isSome then f.elapse (r.now + ms) else f.bereft (r.now + ms)
  | .abort m => if m = n then f.abort else f
  | _ => f

theorem task_act (h : r.tasks[n]? = some f) (e : Event) :
    (r.act e).tasks[n]? = some (r.fate n f e) := by
  cases e with
  | operate o =>
    rw [act, operate_tasks]
    exact h
  | advance ms =>
    rcases hp : r.pool with _ | p
    · simp [act, tasks_bereft hp, h, fate, hp]
    · simp [act, tasks_owned hp, h, fate, hp]
  | spawn interval =>
    rcases hp : r.pool with _ | p
    · rw [tasks_spawn_bereft hp]
      exact h
    · rw [tasks_spawn hp, List.getElem?_append_left (List.getElem?_eq_some_iff.1 h).1]
      exact h
  | abort m =>
    show (r.tasks.modify m abort)[n]? = _
    rw [List.getElem?_modify, h, fate]
    rfl
  | share | drop => exact h

theorem fate_dead (h : f.next = none) (e : Event) : r.fate n f e = f := by
  have hidle : ∀ limit, f.Idle limit := fun _ => idle_of_dead h
  have habort : f.abort = f := by
    rcases f with ⟨i, next, pos⟩
    obtain rfl : next = none := h
    rfl
  cases e <;> simp only [fate, elapse_idle (hidle _), bereft_idle (hidle _), habort, ite_self]

theorem elapse_interval (f : Refresher) (limit : Nat) : (f.elapse limit).interval = f.interval := by
  fun_induction Refresher.elapse f limit with
  | case1 => rfl
  | case2 f t hnext ht ih => exact ih
  | case3 => rfl

theorem fate_interval (r : Rotation) (n : Nat) (f : Refresher) (e : Event) :
    (r.fate n f e).interval = f.interval := by
  cases e with
  | advance ms =>
    rw [fate]
    split_ifs
    · exact elapse_interval ..
    · rw [bereft]
      split_ifs <;> rfl
  | abort m =>
    rw [fate]
    split_ifs <;> rfl
  | _ => rfl

/-- A refresher stays the one it is. -/
theorem task_interval : ∀ (es : List Event) {r : Rotation} {f : Refresher}, r.tasks[n]? = some f →
    ∃ f', (r.play es).tasks[n]? = some f' ∧ f'.interval = f.interval
  | [], _, f, h => ⟨f, h, rfl⟩
  | e :: es, r, f, h => by
    obtain ⟨f', hf', hi⟩ := task_interval es (task_act h e)
    exact ⟨f', hf', hi.trans (r.fate_interval n f e)⟩

theorem task_dead : ∀ (es : List Event) {r : Rotation}, r.tasks[n]? = some f → f.next = none →
    (r.play es).tasks[n]? = some f
  | [], _, h, _ => h
  | e :: es, r, h, hdead => by
    refine task_dead es (r := r.act e) ?_ hdead
    rw [task_act h e, fate_dead hdead]

/-- Once the pool is without owner, the next tick ends the refresher. -/
theorem task_bereft : ∀ (es : List Event) {r : Rotation}, r.pool = none → .abort n ∉ es →
    r.tasks[n]? = some (f.bereft r.now) → (r.play es).tasks[n]? = some (f.bereft (r.play es).now)
  | [], _, _, _, h => h
  | e :: es, r, hp, habort, h => by
    obtain ⟨hne, hes⟩ := not_or.1 (mt List.mem_cons.2 habort)
    refine task_bereft es (act_none hp e) hes ?_
    rw [task_act h e]
    cases e with
    | advance ms =>
      simp only [fate, hp, Option.isSome_none, Bool.false_eq_true, if_false, act, advance_now]
      rw [bereft_bereft f (Nat.le_add_right ..)]
    | abort m =>
      have hm : m ≠ n := fun h => hne (h ▸ rfl)
      simp only [fate, if_neg hm]
      rfl
    | operate o => simp only [fate, act, operate_now]
    | spawn interval =>
      rw [(r.spawn_pool interval).2.2]
      rfl
    | share | drop => rfl

/-- While the pool has an owner, a refresher that is not aborted ticks at every multiple. -/
theorem task_alive {s : Nat} (pos : 0 < interval) : ∀ (es : List Event) {r : Rotation} {p : Pool},
    r.pool = some p → ownersAfter r.owners es ≠ 0 → .abort n ∉ es →
      r.tasks[n]? = some (after s pos (count s interval r.now)) →
        (r.play es).tasks[n]? = some (after s pos (count s interval (r.play es).now))
  | [], _, _, _, _, _, h => h
  | e :: es, r, p, hp, howned, habort, h => by
    obtain ⟨hne, hes⟩ := not_or.1 (mt List.mem_cons.2 habort)
    rw [ownersAfter_cons, ← act_owners] at howned
    have hnext : (r.act e).owners ≠ 0 := fun h0 => howned (by rw [h0, ownersAfter_zero])
    refine task_alive pos es (act_owned hp hnext) howned hes ?_
    rw [task_act h e]
    cases e with
    | advance ms =>
      simp only [fate, hp, Option.isSome_some, if_true, act, advance_now]
      rw [elapse_count pos, Nat.max_eq_right (Nat.le_add_right ..)]
    | abort m =>
      have hm : m ≠ n := fun h => hne (h ▸ rfl)
      simp only [fate, if_neg hm]
      rfl
    | operate o => simp only [fate, act, operate_now]
    | spawn interval =>
      rw [(r.spawn_pool interval).2.2]
      rfl
    | share | drop => rfl

theorem timesOf_append (n : Nat) (ds ds' : List Deed) :
    timesOf n (ds ++ ds') = timesOf n ds ++ timesOf n ds' := by
  rw [timesOf, List.filter_append, List.map_append]
  rfl

/-- A refresher that is dead, or not there yet, does nothing. -/
theorem timesOf_deeds_nil (h : ∀ f, r.tasks[n]? = some f → f.next = none) (e : Event) :
    timesOf n (r.deeds e) = [] := by
  rw [timesOf_deeds]
  cases e with
  | advance ms =>
    rcases hf : r.tasks[n]? with _ | f
    · simp only [Option.map_none, Option.getD_none, ite_self]
    · simp only [Option.map_some, Option.getD_some, ticks_idle (idle_of_dead (h f hf)), ite_self]
  | _ => rfl

theorem timesOf_dead : ∀ (es : List Event) {r : Rotation}, r.tasks[n]? = some f → f.next = none →
    timesOf n (r.course es) = []
  | [], _, _, _ => rfl
  | e :: es, r, h, hdead => by
    have hnext : ∀ f', r.tasks[n]? = some f' → f'.next = none := fun f' hf' =>
      Option.some.inj (h.symm.trans hf') ▸ hdead
    rw [course, timesOf_append, timesOf_deeds_nil hnext, List.nil_append]
    refine timesOf_dead es ?_ hdead
    rw [task_act h e, fate_dead hdead]

theorem timesOf_absent : ∀ (es : List Event) {r : Rotation}, (r.play es).tasks.length ≤ n →
    timesOf n (r.course es) = []
  | [], _, _ => rfl
  | e :: es, r, h => by
    have hnone : r.tasks[n]? = none :=
      List.getElem?_eq_none ((le_length_play (e :: es) r).trans h)
    rw [course, timesOf_append, timesOf_deeds_nil (by simp [hnone]), List.nil_append]
    exact timesOf_absent es h

theorem le_lasting (n : Nat) : ∀ (es : List Event) (k now : Nat), now ≤ lasting n k now es
  | [], _, _ => Nat.le_refl _
  | .advance ms :: es, k, now => (Nat.le_add_right now ms).trans (le_lasting n es k _)
  | .abort m :: es, k, now => by
    rw [lasting]
    split_ifs
    · exact Nat.le_refl _
    · exact le_lasting n es k now
  | .operate _ :: es, k, now | .spawn _ :: es, k, now | .share :: es, k, now
  | .drop :: es, k, now => by
    rw [lasting]
    split_ifs
    · exact Nat.le_refl _
    · exact le_lasting n es _ now
    all_goals nofun

theorem range'_split {k l m : Nat} (hkl : k ≤ l) (hlm : l ≤ m) :
    List.range' k (m - k) = List.range' k (l - k) ++ List.range' l (m - l) := by
  have happend : List.range' k (l - k) ++ List.range' (k + (l - k)) (m - l)
      = List.range' k (l - k + (m - l)) := List.range'_append_1
  rw [Nat.add_sub_cancel' hkl, show l - k + (m - l) = m - k by omega] at happend
  exact happend.symm

/-- A refresher does something exactly at the multiples of its interval up to the time when it is
aborted or the pool loses its last owner. -/
theorem timesOf_course {s : Nat} (pos : 0 < interval) (es : List Event) {r : Rotation} {p : Pool}
    (hp : r.pool = some p) (h : r.tasks[n]? = some (after s pos (count s interval r.now))) :
    timesOf n (r.course es) = (List.range' (count s interval r.now)
      (count s interval (lasting n r.owners r.now es) - count s interval r.now)).map
        fun j => s + interval * (j + 1) := by
  induction es generalizing r p with
  | nil =>
    rw [lasting, Nat.sub_self]
    rfl
  | cons e es ih =>
    have ih {q : Pool} := @ih (r.act e) q
    have htask := task_act h e
    rw [act_owners] at ih
    rw [course, timesOf_append, timesOf_deeds]
    -- an event that takes no time leaves the refresher alone, and may take the pool away
    have hstill (hnow : (r.act e).now = r.now)
        (htask : (r.act e).tasks[n]? = some (after s pos (count s interval r.now)))
        (hlast : lasting n r.owners r.now (e :: es) = if e.owners r.owners = 0 then r.now
          else lasting n (e.owners r.owners) r.now es) :
        timesOf n ((r.act e).course es) = (List.range' (count s interval r.now)
          (count s interval (lasting n r.owners r.now (e :: es)) - count s interval r.now)).map
            fun j => s + interval * (j + 1) := by
      rw [hlast]
      split_ifs with h0
      · rw [course_none es (owners_eq_zero.1 ((r.act_owners e).trans h0)), Nat.sub_self]
        rfl
      · obtain ⟨q, hq⟩ := pool_of_owners (mt (r.act_owners e).symm.trans h0)
        rw [hnow] at ih
        exact ih hq htask
    cases e with
    | advance ms =>
      have hle : r.now ≤ r.now + ms := Nat.le_add_right ..
      obtain ⟨q, hq⟩ := pool_of_owners
        ((r.act_owners (.advance ms)).trans_ne (owners_ne_zero hp))
      rw [act, advance_now] at ih
      simp only [fate, hp, Option.isSome_some, if_true] at htask
      rw [elapse_count pos, Nat.max_eq_right hle] at htask
      simp only [hp, Option.isSome_some, if_true, h, Option.map_some, Option.getD_some]
      rw [ticks_after pos]
      -- the ticks of this span and those of what follows meet at the count of its end
      refine (congrArg _ (ih hq htask)).trans ?_
      rw [← List.map_append, lasting]
      exact congrArg _ (range'_split (count_mono _ _ hle)
        (count_mono _ _ (le_lasting n es _ _))).symm
    | abort m =>
      rcases eq_or_ne m n with rfl | hm
      · rw [fate, if_pos rfl] at htask
        rw [timesOf_dead es htask rfl, lasting, if_pos rfl, Nat.sub_self]
        rfl
      · rw [fate, if_neg hm] at htask
        rw [lasting, if_neg hm]
        exact ih hp htask
    | operate o => exact hstill (r.operate_now o) htask (by rw [lasting] <;> rintro _ ⟨⟩)
    | spawn i => exact hstill (r.spawn_pool i).2.2 htask (by rw [lasting] <;> rintro _ ⟨⟩)
    | share | drop => exact hstill rfl htask (by rw [lasting] <;> rintro _ ⟨⟩)

end Tasks

end Rotation

end AuctionGate
