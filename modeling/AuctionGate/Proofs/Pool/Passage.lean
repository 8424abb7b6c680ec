import AuctionGate.Proofs.Pool.Operations
import AuctionGate.Proofs.Pool.Ticking

/-!
# Time passes over a pool

As time passes, the refreshers of a pool tick one after the other. While the pool is owned each
tick refreshes it, and every refresher ticks as it would alone (`elapse_owned`, `times_trail`);
without an owner every refresher ends at its next tick (`elapse_bereft`). It makes no difference
into which pieces the time is cut (`elapse_elapse`).
-/

namespace AuctionGate

namespace Rotation

open Refresher

variable {r r' : Rotation} {p : Pool} {n t limit a b : Nat} {f : Refresher}

/-- The ticks up to a time with the numbers of the refreshers that tick. -/
def trail (limit : Nat) (r : Rotation) : List (Nat × Nat) :=
  match _ : Refresher.nextTick? r.tasks with
  | none => []
  | some (t, n) => if _ : t ≤ limit then (t, n) :: (r.tick t n).trail limit else []
termination_by allLeft limit r.tasks
decreasing_by exact left_tick ‹_› ‹_›

/-! ## Who owns the pool -/

section Owners

def owners (r : Rotation) : Nat := r.held.elim 0 (·.others + 1)

theorem owners_eq_zero : r.owners = 0 ↔ r.pool = none := by
  rw [owners, pool]
  cases r.held <;> simp

theorem pool_of_owners (h : r.owners ≠ 0) : ∃ p, r.pool = some p :=
  Option.ne_none_iff_exists'.1 (mt owners_eq_zero.2 h)

theorem owners_ne_zero (h : r.pool = some p) : r.owners ≠ 0 := fun h0 => by
  rw [owners_eq_zero.1 h0] at h
  cases h

theorem owners_turned (r : Rotation) (t : Pool.Turn) : (r.turned t).owners = r.owners := by
  rw [owners, owners, turned]
  cases r.held <;> rfl

theorem share_pool (r : Rotation) : r.share.pool = r.pool := by
  rw [pool, pool, share]
  cases r.held <;> rfl

/-- Who lets go of what he was handed leaves everything as it was. -/
theorem drop_share (r : Rotation) : r.share.drop = r := by
  rcases r with ⟨now, _ | h, tasks, journal⟩ <;> rfl

/-- As long as there is another owner, letting go leaves the pool as it was. -/
theorem drop_pool (h : r.drop.owners ≠ 0) : r.drop.pool = r.pool := by
  rcases r with ⟨now, _ | ⟨p, _ | k⟩, tasks, journal⟩
  · rfl
  · exact absurd rfl h
  · rfl

end Owners

/-! ## One tick -/

section Ticks

theorem operate_none (h : r.pool = none) (o : Pool.Operation) : r.operate o = r := by
  rw [operate, turn?, h, Option.map_none, Option.map_none, Option.getD_none]

theorem refresh?_of_pool (h : r.pool = some p) : r.refresh? = some (r.operate .refresh) := by
  rw [refresh?, turn?_of_pool ((share_pool r).trans h), operate_of_pool h, Option.map_some]
  have hshare : r.share.turned p.refresh = (r.turned p.refresh).share := by
    rcases r with ⟨now, _ | h, tasks, journal⟩ <;> rfl
  rw [hshare, drop_share]
  rfl

theorem tick_owned (h : r.pool = some p) (t n : Nat) :
    r.tick t n = { r.operate .refresh with now := t, tasks := r.tasks.modify n rearm } := by
  rw [tick, refresh?_of_pool h]

theorem tick_bereft (h : r.pool = none) (t n : Nat) :
    r.tick t n = { r with now := t, tasks := r.tasks.modify n abort } := by
  rw [tick, refresh?, turn?, share_pool, h]
  rfl

theorem tick_now (r : Rotation) (now t n : Nat) :
    ({ r with now } : Rotation).tick t n = r.tick t n := by
  rcases r with ⟨now', _ | h, tasks, journal⟩ <;> rfl

/-- No refresher ticks up to a time. -/
def Idle (r : Rotation) (limit : Nat) : Prop := ∀ f ∈ r.tasks, f.Idle limit

/-- Either nothing is due or a tick is next. -/
theorem induction_on_ticks (limit : Nat) {P : Rotation → Prop}
    (idle : ∀ r : Rotation, r.Idle limit → P r)
    (due : ∀ (r : Rotation) (t n : Nat), nextTick? r.tasks = some (t, n) → t ≤ limit →
      P (r.tick t n) → P r) (r : Rotation) : P r := by
  induction r using elapse.induct limit with
  | case1 r hnone => exact idle r fun f hf => idle_of_dead (next_of_nextTick_none hnone hf)
  | case2 r t n hnext ht ih => exact due r t n hnext ht ih
  | case3 r t n hnext ht =>
    exact idle r fun f hf t' ht' => (Nat.lt_of_not_le ht).trans_le (le_of_nextTick hnext hf ht')

theorem elapse_of_due (h : nextTick? r.tasks = some (t, n)) (ht : t ≤ limit) :
    r.elapse limit = (r.tick t n).elapse limit := by
  rw [elapse]
  split <;> simp_all

theorem elapse_of_idle (h : r.Idle limit) : r.elapse limit = { r with now := limit } := by
  rw [elapse]
  split
  · rfl
  · rename_i hnext
    obtain ⟨f, hf, ht⟩ := next_of_nextTick hnext
    exact dif_neg (Nat.not_le.2 (h f (List.mem_of_getElem? hf) _ ht))

theorem trail_of_due (h : nextTick? r.tasks = some (t, n)) (ht : t ≤ limit) :
    r.trail limit = (t, n) :: (r.tick t n).trail limit := by
  rw [trail]
  split <;> simp_all

theorem trail_of_idle (h : r.Idle limit) : r.trail limit = [] := by
  rw [trail]
  split
  · rfl
  · rename_i hnext
    obtain ⟨f, hf, ht⟩ := next_of_nextTick hnext
    exact dif_neg (Nat.not_le.2 (h f (List.mem_of_getElem? hf) _ ht))

/-- Time that passes in pieces passes as a whole. -/
theorem elapse_elapse (r : Rotation) (hab : a ≤ b) : (r.elapse a).elapse b = r.elapse b := by
  induction r using induction_on_ticks a with
  | idle r idle =>
    rw [elapse_of_idle idle]
    -- the time at which nothing happened is not seen any more
    rw [elapse.eq_def b { r with now := a }, elapse.eq_def b r]
    simp only [tick_now]
  | due r t n hnext ht ih =>
    rw [elapse_of_due hnext ht, ih, elapse_of_due hnext (ht.trans hab)]

theorem elapse_now (r : Rotation) (limit : Nat) : (r.elapse limit).now = limit := by
  induction r using induction_on_ticks limit with
  | idle r idle => rw [elapse_of_idle idle]
  | due r t n hnext ht ih => rw [elapse_of_due hnext ht, ih]

/-- Nothing that is due is left undone. -/
theorem idle_elapse (r : Rotation) (limit : Nat) : (r.elapse limit).Idle limit := by
  induction r using induction_on_ticks limit with
  | idle r idle =>
    rw [elapse_of_idle idle]
    exact idle
  | due r t n hnext ht ih =>
    rw [elapse_of_due hnext ht]
    exact ih

/-- After a tick the next one is not earlier. -/
theorem le_of_tick (hnext : nextTick? r.tasks = some (t, n)) :
    ∀ f ∈ (r.tick t n).tasks, ∀ t', f.next = some t' → t ≤ t' := by
  intro f hf t' ht'
  have hkept {g : Refresher → Refresher} (hg : ∀ f t', (g f).next = some t' →
      ∃ t'', f.next = some t'' ∧ t'' ≤ t') (hf : f ∈ r.tasks.modify n g) : t ≤ t' := by
    obtain ⟨i, hi⟩ := List.mem_iff_getElem?.1 hf
    rw [List.getElem?_modify] at hi
    obtain ⟨f', hf', rfl⟩ := Option.map_eq_some_iff.1 hi
    split_ifs at ht'
    · obtain ⟨t'', ht'', hle⟩ := hg f' t' ht'
      exact (le_of_nextTick hnext (List.mem_of_getElem? hf') ht'').trans hle
    · exact le_of_nextTick hnext (List.mem_of_getElem? hf') ht'
  rcases hp : r.pool with _ | p
  · rw [tick_bereft hp] at hf
    exact hkept (fun f t' h => by cases h) hf
  · rw [tick_owned hp] at hf
    refine hkept (fun f t' h => ?_) hf
    obtain ⟨t'', ht'', rfl⟩ := Option.map_eq_some_iff.1 h
    exact ⟨t'', ht'', Nat.le_add_right ..⟩

/-- Ticks come in the order of time, up to the limit. -/
theorem trail_ordered (limit : Nat) (r : Rotation) :
    (r.trail limit).Pairwise (·.1 ≤ ·.1)
      ∧ ∀ a, (∀ f ∈ r.tasks, ∀ t, f.next = some t → a ≤ t) →
        ∀ x ∈ r.trail limit, a ≤ x.1 ∧ x.1 ≤ limit := by
  induction r using induction_on_ticks limit with
  | idle r idle =>
    rw [trail_of_idle idle]
    exact ⟨.nil, fun _ _ => List.forall_mem_nil _⟩
  | due r t n hnext ht ih =>
    obtain ⟨hsorted, hwithin⟩ := ih
    have hlater := hwithin t (le_of_tick hnext)
    rw [trail_of_due hnext ht]
    refine ⟨List.pairwise_cons.2 ⟨fun x hx => (hlater x hx).1, hsorted⟩, fun a ha x hx => ?_⟩
    obtain ⟨f, hf, hft⟩ := next_of_nextTick hnext
    have hat := ha f (List.mem_of_getElem? hf) t hft
    rcases List.mem_cons.1 hx with rfl | hx
    · exact ⟨hat, ht⟩
    · exact ⟨hat.trans (hlater x hx).1, (hlater x hx).2⟩

end Ticks

/-! ## Time with an owner, and without -/

section Elapse

theorem operate_tasks (r : Rotation) (o : Pool.Operation) : (r.operate o).tasks = r.tasks := by
  rcases h : r.pool with _ | p
  · rw [operate_none h]
  · rw [operate_of_pool h]
    rfl

theorem operate_now (r : Rotation) (o : Pool.Operation) : (r.operate o).now = r.now := by
  rcases h : r.pool with _ | p
  · rw [operate_none h]
  · rw [operate_of_pool h]
    rfl

theorem operate_owners (r : Rotation) (o : Pool.Operation) : (r.operate o).owners = r.owners := by
  rcases h : r.pool with _ | p
  · rw [operate_none h]
  · rw [operate_of_pool h, owners_turned]

theorem operate_pool (h : r.pool = some p) (o : Pool.Operation) :
    (r.operate o).pool = some (p.perform o).pool := by
  rw [operate_of_pool h, turned_pool h]

theorem run_pool : ∀ (os : List Pool.Operation) {r : Rotation} {p : Pool}, r.pool = some p →
    (r.run os).pool = some (p.after os)
  | [], _, _, h => h
  | o :: os, _, _, h => run_pool os (operate_pool h o)

theorem run_owners : ∀ (os : List Pool.Operation) (r : Rotation), (r.run os).owners = r.owners
  | [], _ => rfl
  | o :: os, r => (run_owners os (r.operate o)).trans (r.operate_owners o)

theorem run_append (r : Rotation) (os os' : List Pool.Operation) :
    r.run (os ++ os') = (r.run os).run os' := List.foldl_append

/-- What operations do to a pool and tell the journal depends on nothing else. -/
theorem run_congr : ∀ (os : List Pool.Operation) {r r' : Rotation}, r'.pool = r.pool →
    r'.journal = r.journal →
      (r'.run os).pool = (r.run os).pool ∧ (r'.run os).journal = (r.run os).journal
  | [], _, _, hpool, hjournal => ⟨hpool, hjournal⟩
  | o :: os, r, r', hpool, hjournal => by
    have hstep : (r'.operate o).pool = (r.operate o).pool
        ∧ (r'.operate o).journal = (r.operate o).journal := by
      rcases h : r.pool with _ | p
      · rw [operate_none h, operate_none (hpool.trans h)]
        exact ⟨hpool, hjournal⟩
      · rw [operate_pool h, operate_pool (hpool.trans h), operate_of_pool h,
          operate_of_pool (hpool.trans h), turned, turned, hjournal]
        exact ⟨rfl, rfl⟩
    exact run_congr os hstep.1 hstep.2

/-- Operations go on as they would, whatever the time and the refreshers. -/
theorem run_frame (now : Nat) (tasks : List Refresher) : ∀ (os : List Pool.Operation)
    (r : Rotation), ({ r with now, tasks } : Rotation).run os = { r.run os with now, tasks }
  | [], _ => rfl
  | o :: os, r => by
    have hstep : ({ r with now, tasks } : Rotation).operate o
        = { r.operate o with now, tasks } := by
      rcases r with ⟨now', _ | h, tasks', journal⟩ <;> rfl
    rw [run, List.foldl_cons, hstep]
    exact run_frame now tasks os (r.operate o)

theorem tick_pool (h : r.pool = some p) (t n : Nat) :
    (r.tick t n).pool = some p.refresh.pool := by
  rw [tick_owned h]
  exact operate_pool h .refresh

/-- What happens to the one that ticks does not matter where it comes to the same. -/
theorem map_modify {g h : Refresher → Refresher} {fs : List Refresher} (hf : fs[n]? = some f)
    (heq : h (g f) = h f) : (fs.modify n g).map h = fs.map h := by
  refine List.ext_getElem? fun i => ?_
  rw [List.getElem?_map, List.getElem?_map, List.getElem?_modify]
  by_cases hi : n = i
  · subst hi
    simp [hf, heq]
  · simp [hi]

/-- While the pool is owned every tick refreshes it, and every refresher goes on. -/
theorem elapse_owned (h : r.pool = some p) :
    r.elapse limit = { r.run ((r.trail limit).map fun _ => .refresh) with
      now := limit, tasks := r.tasks.map (·.elapse limit) } := by
  induction r using induction_on_ticks limit generalizing p with
  | idle r idle =>
    have hself : r.tasks.map (·.elapse limit) = r.tasks :=
      List.map_congr_left (fun f hf => elapse_idle (idle f hf)) |>.trans (List.map_id' _)
    rw [elapse_of_idle idle, trail_of_idle idle, hself]
    rfl
  | due r t n hnext ht ih =>
    obtain ⟨f, hf, hft⟩ := next_of_nextTick hnext
    have hgoes : (r.tasks.modify n rearm).map (·.elapse limit) = r.tasks.map (·.elapse limit) :=
      map_modify hf (elapse_due hft ht).symm
    rw [elapse_of_due hnext ht, ih (tick_pool h t n), trail_of_due hnext ht, tick_owned h,
      run_frame]
    simp only [hgoes]
    rfl

/-- Without an owner every refresher ends at its next tick. -/
theorem elapse_bereft (h : r.pool = none) :
    r.elapse limit = { r with now := limit, tasks := r.tasks.map (·.bereft limit) } := by
  induction r using induction_on_ticks limit with
  | idle r idle =>
    have hself : r.tasks.map (·.bereft limit) = r.tasks :=
      List.map_congr_left (fun f hf => bereft_idle (idle f hf)) |>.trans (List.map_id' _)
    rw [elapse_of_idle idle, hself]
  | due r t n hnext ht ih =>
    obtain ⟨f, hf, hft⟩ := next_of_nextTick hnext
    have hnone : (r.tick t n).pool = none := by
      rw [tick_bereft h]
      exact h
    have hend : (r.tasks.modify n abort).map (·.bereft limit) = r.tasks.map (·.bereft limit) :=
      map_modify hf ((bereft_idle (idle_of_dead rfl)).trans (bereft_due hft ht).symm)
    rw [elapse_of_due hnext ht, ih hnone, tick_bereft h]
    simp only [hend]

/-- The ticks with the number of a refresher are those of that refresher alone. -/
theorem times_trail (h : r.pool = some p) (n : Nat) :
    ((r.trail limit).filter (·.2 = n)).map (·.1) = (r.tasks[n]?.map (·.ticks limit)).getD [] := by
  induction r using induction_on_ticks limit generalizing p with
  | idle r idle =>
    rw [trail_of_idle idle]
    rcases hf : r.tasks[n]? with _ | f
    · rfl
    · exact (ticks_idle (idle f (List.mem_of_getElem? hf))).symm
  | due r t m hnext ht ih =>
    obtain ⟨f, hf, hft⟩ := next_of_nextTick hnext
    have hrest := ih (tick_pool h t m)
    rw [tick_owned h, List.getElem?_modify, ← tick_owned h] at hrest
    rw [trail_of_due hnext ht]
    rcases eq_or_ne m n with rfl | hm
    · rw [hf] at hrest ⊢
      rw [List.filter_cons_of_pos (by simp), List.map_cons, hrest]
      simp [ticks_due hft ht]
    · rw [List.filter_cons_of_neg (by simpa using hm), hrest]
      simp [hm]

end Elapse

end Rotation

end AuctionGate
