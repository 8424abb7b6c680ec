import AuctionGate.Proofs.Pool.Course

/-!
# When a pool is refreshed

A refresher refreshes the pool one interval after it was spawned and then once in every interval, as
long as the pool is owned and the refresher is not aborted, and at no other time. It does so in
order with all else that is done to the pool, into whatever pieces time is cut, and it does not keep
the pool (`play_refreshes`).
-/

namespace AuctionGate

namespace Rotation

open Refresher

variable {r : Rotation} {p : Pool} {e : Event} {n interval : Nat} {f : Refresher}

/-! ## In what order -/

section Order

/-- No tick is overdue. -/
def OnTime (r : Rotation) : Prop := r.Idle r.now

theorem onTime_ofPool (p : Pool) : (ofPool p).OnTime := List.forall_mem_nil _

theorem OnTime.act (h : r.OnTime) (e : Event) : (r.act e).OnTime := by
  cases e with
  | operate o =>
    rw [OnTime, Idle, Rotation.act, operate_tasks, operate_now]
    exact h
  | advance ms =>
    rw [OnTime, Rotation.act, advance_now]
    exact r.idle_elapse _
  | spawn i =>
    rcases hp : r.pool with _ | p
    · rw [tasks_spawn_bereft hp]
      exact h
    · rw [OnTime, Idle, tasks_spawn hp, (r.spawn_pool i).2.2]
      intro f hf t ht
      rcases List.mem_append.1 hf with hf | hf
      · exact h f hf t ht
      · rw [List.mem_singleton.1 hf] at ht
        exact lt_of_spawn ht
  | abort m =>
    intro f hf t ht
    obtain ⟨i, hi⟩ := List.mem_iff_getElem?.1 hf
    rw [Rotation.act, abortTask, List.getElem?_modify] at hi
    obtain ⟨g, hg, rfl⟩ := Option.map_eq_some_iff.1 hi
    split_ifs at ht
    · cases ht
    · exact h g (List.mem_of_getElem? hg) t ht
  | share | drop => exact h

theorem le_act_now (r : Rotation) (e : Event) : r.now ≤ (r.act e).now := by
  cases e with
  | operate o => exact (r.operate_now o).ge
  | advance ms => exact (Nat.le_add_right ..).trans (r.advance_now ms).ge
  | spawn i => exact (r.spawn_pool i).2.2.ge
  | _ => exact Nat.le_refl _

/-- What is done in one event is done in order, and while the event lasts. -/
theorem OnTime.deeds (h : r.OnTime) (e : Event) :
    (r.deeds e).Pairwise (·.time ≤ ·.time)
      ∧ ∀ d ∈ r.deeds e, r.now ≤ d.time ∧ d.time ≤ (r.act e).now := by
  cases e with
  | operate o =>
    rw [Rotation.deeds, Rotation.act, operate_now]
    split_ifs
    · exact ⟨List.pairwise_singleton .., by simp⟩
    · exact ⟨.nil, List.forall_mem_nil _⟩
  | advance ms =>
    rw [Rotation.deeds, Rotation.act, advance_now]
    split_ifs
    · obtain ⟨hsorted, hwithin⟩ := trail_ordered (r.now + ms) r
      refine ⟨List.pairwise_map.2 hsorted, fun d hd => ?_⟩
      obtain ⟨x, hx, rfl⟩ := List.mem_map.1 hd
      exact hwithin r.now (fun f hf t ht => Nat.le_of_lt (h f hf t ht)) x hx
    · exact ⟨.nil, List.forall_mem_nil _⟩
  | _ => exact ⟨.nil, List.forall_mem_nil _⟩

/-- All is done in the order of time. -/
theorem OnTime.course : ∀ (es : List Event) {r : Rotation}, r.OnTime →
    (r.course es).Pairwise (·.time ≤ ·.time) ∧ ∀ d ∈ r.course es, r.now ≤ d.time
  | [], _, _ => ⟨.nil, List.forall_mem_nil _⟩
  | e :: es, r, h => by
    obtain ⟨hfirst, hwithin⟩ := h.deeds e
    obtain ⟨hrest, hafter⟩ := OnTime.course es (h.act e)
    rw [Rotation.course]
    refine ⟨List.pairwise_append.2 ⟨hfirst, hrest, fun d hd d' hd' => ?_⟩, fun d hd => ?_⟩
    · exact (hwithin d hd).2.trans (hafter d' hd')
    · rcases List.mem_append.1 hd with hd | hd
      · exact (hwithin d hd).1
      · exact (r.le_act_now e).trans (hafter d hd)

/-- Time can be let pass piece by piece. -/
theorem advance_add (r : Rotation) (a b : Nat) : r.advance (a + b) = (r.advance a).advance b := by
  have hsum : (r.advance a).now + b = r.now + (a + b) := by rw [advance_now, Nat.add_assoc]
  rw [advance, advance, hsum]
  exact (r.elapse_elapse (by omega)).symm

/-- After refreshes everything that is configured is live. -/
theorem after_refreshes (p : Pool) {α : Type} {ts : List α} (h : ts ≠ []) :
    p.after (ts.map fun _ => .refresh) = { p with live := p.configured } := by
  have hagain : ∀ (ts : List α) {q : Pool}, q.live = q.configured →
      q.after (ts.map fun _ => .refresh) = q := by
    intro ts
    induction ts with
    | nil => exact fun _ => rfl
    | cons t ts ih =>
      rintro ⟨name, configured, live⟩ hlive
      obtain rfl : live = configured := hlive
      exact ih rfl
  obtain ⟨t, ts, rfl⟩ := List.exists_cons_of_ne_nil h
  exact hagain ts rfl

theorem after_configured (os : List Pool.Operation) (p : Pool) :
    (p.after os).configured = p.configured := by
  induction os using List.reverseRecOn with
  | nil => rfl
  | append_singleton os o ih =>
    rw [Pool.after_snoc, (Pool.effect_perform _ o).configured, ih]

/-- After a tick of any refresher everything that is configured is live. -/
theorem advance_refreshed (hp : r.pool = some p) {ms : Nat} (h : r.trail (r.now + ms) ≠ []) :
    (r.advance ms).pool = some { p with live := p.configured } := by
  rw [advance, elapse_owned hp, ← after_refreshes p h]
  exact run_pool _ hp

end Order

/-! ## The refresher of a pool -/

section Schedule

variable {s : Nat}

/-- There is a tick at each multiple that is passed. -/
theorem trail_ne_nil {j limit : Nat} (pos : 0 < interval) (hp : r.pool = some p)
    (h : r.tasks[n]? = some (after s pos (count s interval r.now)))
    (hlt : r.now < s + interval * (j + 1)) (hle : s + interval * (j + 1) ≤ limit) :
    r.trail limit ≠ [] := by
  intro hnil
  have htimes : ((r.trail limit).filter (·.2 = n)).map (·.1) = _ := times_trail hp n
  rw [hnil, h, Option.map_some, Option.getD_some, ticks_after pos] at htimes
  have hj : j < count s interval limit := (lt_count_iff pos).2 hle
  have hj' : count s interval r.now ≤ j :=
    Nat.le_of_not_lt fun h => absurd ((lt_count_iff pos).1 h) (Nat.not_le.2 hlt)
  have hempty := List.range'_eq_nil_iff.1 (List.map_eq_nil_iff.1 htimes.symm)
  omega

theorem task_aborted {es : List Event} (h : r.tasks[n]? = some f) (habort : .abort n ∈ es) :
    (r.play es).tasks[n]? = some (.ended f.interval) := by
  obtain ⟨es₁, es₂, rfl⟩ := List.append_of_mem habort
  obtain ⟨f', hf', hinterval⟩ := task_interval es₁ h
  have hdead := task_act hf' (.abort n)
  rw [fate, if_pos rfl, Refresher.abort, hinterval] at hdead
  rw [play_append]
  exact task_dead es₂ hdead rfl

theorem task_dropped {es₁ es₂ : List Event} (pos : 0 < interval) (hp : r.pool = some p)
    (h : r.tasks[n]? = some (after s pos (count s interval r.now)))
    (hlast : ownersAfter r.owners es₁ = 1) (habort : .abort n ∉ es₁ ++ .drop :: es₂) :
    (r.play (es₁ ++ .drop :: es₂)).tasks[n]?
      = some ((after s pos (count s interval (r.play es₁).now)).bereft
          (r.play (es₁ ++ .drop :: es₂)).now) := by
  have hbefore : .abort n ∉ es₁ := fun h => habort (List.mem_append_left _ h)
  have hafter : .abort n ∉ es₂ := fun h =>
    habort (List.mem_append_right _ (List.mem_cons_of_mem _ h))
  have halive := task_alive pos es₁ hp (by rw [hlast]; decide) hbefore h
  have hgone : ((r.play es₁).act .drop).pool = none := by
    rw [← owners_eq_zero, act_owners, play_owners, hlast]
    rfl
  rw [play_append]
  exact task_bereft es₂ hgone hafter (halive.trans (congrArg some (bereft_count pos _).symm))

theorem play_pool (p : Pool) (es : List Event) :
    ((ofPool p).play es).pool = if ownersAfter 1 es = 0 then none
      else some (p.after (((ofPool p).course es).map (·.operation))) := by
  have howners : ((ofPool p).play es).owners = ownersAfter 1 es := play_owners es _
  split_ifs with h0
  · exact owners_eq_zero.1 (howners.trans h0)
  · rw [((ofPool p).play_does es).2 (howners.trans_ne h0)]
    exact run_pool _ rfl

/-- The refresher that an owner spawns gets the next number, and is alive. -/
theorem act_spawn (pos : 0 < interval) (hp : r.pool = some p)
    (tells : (r.now + interval) / 1000 ≤ maxInstantSeconds) :
    (r.act (.spawn interval)).pool = some p ∧ (r.act (.spawn interval)).now = r.now
      ∧ (r.act (.spawn interval)).tasks[r.tasks.length]?
        = some (after r.now pos (count r.now interval r.now)) := by
  obtain ⟨hheld, -, hnow⟩ := r.spawn_pool interval
  refine ⟨(congrArg (·.map (·.pool)) hheld).trans hp, hnow, ?_⟩
  rw [tasks_spawn hp, List.getElem?_concat_length, spawn_alive pos tells, count_self]

theorem deeds_refresh {d : Deed} (hd : d ∈ r.deeds e) (ht : d.task ≠ none) :
    d.operation = .refresh := by
  cases e with
  | operate o =>
    rw [deeds] at hd
    split_ifs at hd
    · exact absurd (congrArg Deed.task (List.mem_singleton.1 hd)) ht
    · cases hd
  | advance ms =>
    rw [deeds] at hd
    split_ifs at hd
    · obtain ⟨x, -, rfl⟩ := List.mem_map.1 hd
      rfl
    · cases hd
  | _ => cases hd

theorem course_refresh {d : Deed} (ht : d.task ≠ none) : ∀ (es : List Event) {r : Rotation},
    d ∈ r.course es → d.operation = .refresh
  | _ :: es, _, hd => (List.mem_append.1 hd).elim (deeds_refresh · ht) (course_refresh ht es)

/-- A refresher that was spawned at `s` with the number `n`, when the pool had `k` owners, after
events; and all that has been done to the pool. -/
structure Refreshes (p : Pool) (pos : 0 < interval) (s n k : Nat) (es : List Event)
    (r : Rotation) (ds : List Deed) : Prop where
  now : r.now = clock s es
  journal : r.journal = ((ofPool p).run (ds.map (·.operation))).journal
  /-- The pool is gone exactly if its last owner let go of it. -/
  pool : r.pool
    = if ownersAfter k es = 0 then none else some (p.after (ds.map (·.operation)))
  ordered : ds.Pairwise (·.time ≤ ·.time)
  refresh : ∀ d ∈ ds, d.task ≠ none → d.operation = .refresh
  /-- It does something exactly at the multiples of its interval, up to the time when it is aborted
  or the pool loses its last owner. -/
  times : timesOf n ds
    = (List.range (count s interval (lasting n k s es))).map fun j => s + interval * (j + 1)
  /-- It makes no difference into which pieces time is cut. -/
  pieces : ∀ a b, r.advance (a + b) = (r.advance a).advance b
  alive : ownersAfter k es ≠ 0 → .abort n ∉ es →
    r.tasks[n]? = some (after s pos (count s interval r.now))
  /-- Once a multiple is over everything that is configured is live. -/
  back : ownersAfter k es ≠ 0 → .abort n ∉ es → ∀ j ms, r.now < s + interval * (j + 1) →
    s + interval * (j + 1) ≤ r.now + ms →
      ∃ q, (r.advance ms).pool = some q ∧ q.configured = p.configured ∧ q.live = p.configured
  aborted : .abort n ∈ es → r.tasks[n]? = some (.ended interval)
  /-- It ends at the first multiple after the pool lost its last owner. -/
  dropped : ∀ es₁ es₂, es = es₁ ++ .drop :: es₂ → ownersAfter k es₁ = 1 → .abort n ∉ es →
    let m := count s interval (clock s es₁)
    r.tasks[n]?
      = some (if r.now < s + interval * (m + 1) then after s pos m else .ended interval)

/-- Somebody owns the pool when a refresher with a positive interval is spawned whose first tick can
be told as a time. Whatever happens before and after: the journal and the pool are what the deeds
make them, the deeds are done in the order of time, and the pool is gone exactly if its last owner
let go of it. What refreshers do is refreshing, and this one does it exactly at the multiples of its
interval up to the time when it is aborted or the pool loses its last owner. It makes no difference
into which pieces time is cut, and once a multiple is over everything that is configured is live.
The refresher is alive as long as it is not aborted and the pool is owned; once aborted it is dead;
and it dies at the first multiple after the pool lost its last owner. -/
theorem play_refreshes (p : Pool) {before es : List Event} {interval : Nat} (pos : 0 < interval)
    (owned : ownersAfter 1 before ≠ 0)
    (tells : (clock 0 before + interval) / 1000 ≤ maxInstantSeconds) :
    let events := before ++ .spawn interval :: es
    let n := ((ofPool p).play before).tasks.length
    Refreshes p pos (clock 0 before) n (ownersAfter 1 before) es ((ofPool p).play events)
      ((ofPool p).course events) := by
  intro events n
  have hs : ((ofPool p).play before).now = clock 0 before := play_now before _
  have hk : ((ofPool p).play before).owners = ownersAfter 1 before := play_owners before _
  obtain ⟨hpool₀, hpool₀'⟩ := pool_of_owners (hk.trans_ne owned)
  obtain ⟨hpool₁, hnow₁, htask₁⟩ := act_spawn pos hpool₀' (hs.symm ▸ tells)
  have hk₁ : (((ofPool p).play before).act (.spawn interval)).owners = ownersAfter 1 before :=
    (act_owners _ _).trans hk
  have hr : (ofPool p).play events
      = (((ofPool p).play before).act (.spawn interval)).play es := play_append ..
  have hds : (ofPool p).course events = (ofPool p).course before
      ++ (((ofPool p).play before).act (.spawn interval)).course es := course_append ..
  have hpool : ((ofPool p).play events).pool = _ := play_pool p events
  rw [show ownersAfter 1 events = ownersAfter (ownersAfter 1 before) es from
    ownersAfter_append ..] at hpool
  rw [hs] at hnow₁ htask₁
  have htimes := timesOf_absent before (Nat.le_refl n)
  generalize ((ofPool p).play before).act (.spawn interval) = r₁ at hr hds hpool₁ hnow₁ htask₁ hk₁
  rw [← hnow₁] at htask₁
  rw [← hnow₁, ← hk₁]
  rw [← hk₁] at hpool
  have halive (howned : ownersAfter r₁.owners es ≠ 0) (habort : .abort n ∉ es) :
      ((ofPool p).play events).tasks[n]?
        = some (after r₁.now pos (count r₁.now interval ((ofPool p).play events).now)) := by
    rw [hr]
    exact task_alive pos es hpool₁ howned habort htask₁
  refine
    { now := by rw [hr, play_now]
      journal := ((ofPool p).play_does events).1
      pool := hpool
      ordered := ((onTime_ofPool p).course events).1
      refresh := fun d hd ht => course_refresh ht events hd
      times := ?_
      pieces := advance_add _
      alive := halive
      back := fun howned habort j ms hlt hle => ?_
      aborted := fun habort => ?_
      dropped := fun es₁ es₂ hes hlast habort => ?_ }
  · rw [hds, timesOf_append, htimes, List.nil_append, timesOf_course pos es hpool₁ htask₁,
      count_self, Nat.sub_zero, ← List.range_eq_range']
  · rw [if_neg howned] at hpool
    refine ⟨_, advance_refreshed hpool
      (trail_ne_nil pos hpool (halive howned habort) hlt hle), ?_, ?_⟩
    · exact after_configured ..
    · exact after_configured ..
  · rw [hr]
    exact task_aborted htask₁ habort
  · rw [hr, hes]
    rw [hes] at habort
    refine (task_dropped pos hpool₁ htask₁ hlast habort).trans ?_
    rw [bereft_after, play_now es₁]

/-- A refresher every ten seconds. The breaker of an address takes it out at five seconds, and time
passes over three multiples at once; the address is live again from the first. One of two owners
lets go at forty seconds, the other at forty-two, before the fifth multiple, which ends the
refresher. -/
theorem play_refreshes_across :
    let p := Pool.ofAddresses "geo" ["10.0.0.1:80", "10.0.0.2:80"]
    let before : List Event := [.advance 2000, .operate (.remove "10.0.0.2:80"), .share]
    let es : List Event := [.advance 5000, .operate (.hear "10.0.0.1:80" .opened), .advance 33000,
      .drop, .advance 2000, .drop, .advance 10000]
    let r := (ofPool p).play (before ++ .spawn 10000 :: es)
    timesOf 0 ((ofPool p).course (before ++ .spawn 10000 :: es)) = [12000, 22000, 32000, 42000]
      ∧ r.tasks[0]? = some (.ended 10000) ∧ r.pool = none
      ∧ ∃ q, ((ofPool p).play (before ++ .spawn 10000 :: es.take 3)).pool = some q
        ∧ q.live = ["10.0.0.1:80", "10.0.0.2:80"] := by
  intro p before es r
  have hn : ((ofPool p).play before).tasks.length = 0 := by
    show ((((ofPool p).advance 2000).operate _).share).tasks.length = 0
    show (((ofPool p).advance 2000).operate _).tasks.length = 0
    rw [operate_tasks, tasks_owned rfl]
    rfl
  have hall := @play_refreshes p before es 10000 (by decide) (by decide) (by decide)
  have hhalf := @play_refreshes p before (es.take 2) 10000 (by decide) (by decide) (by decide)
  rw [hn] at hall hhalf
  refine ⟨hall.times.trans (by decide), ?_, hall.pool, ?_⟩
  · refine (hall.dropped (es.take 5) (es.drop 6) rfl (by decide) (by decide)).trans ?_
    rw [hall.now]
    decide
  · obtain ⟨q, hq, -, hlive⟩ := hhalf.back (by decide) (by decide) 0 33000
      (by rw [hhalf.now]; decide) (by rw [hhalf.now]; decide)
    exact ⟨q, hq, hlive⟩

end Schedule

end Rotation

end AuctionGate
