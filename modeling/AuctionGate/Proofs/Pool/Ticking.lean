import AuctionGate.Pool.Refresh
import Mathlib.Order.MinMax
import Mathlib.Order.Monotone.Basic
import Mathlib.Tactic.Ring

/-!
# The ticks of one refresher

As long as it finds the pool owned, a refresher ticks at one time after the other, each an interval
after the one before. From when it is spawned that makes a tick at each multiple of the interval,
as many as there are whole intervals (`ticks_after`, `elapse_after`). Once the pool has no owner the
next tick is the last.
-/

namespace AuctionGate

namespace Refresher

/-- Spawned at `s`, the refresher has ticked `n` times. -/
def after (s : Nat) {interval : Nat} (pos : 0 < interval) (n : Nat) : Refresher :=
  ⟨interval, some (s + interval * (n + 1)), fun _ => pos⟩

/-- Whole intervals from a spawning up to a time. -/
def count (s interval limit : Nat) : Nat := (limit - s) / interval

/-- The ticks up to a time, all of which find the pool owned. -/
def ticks (f : Refresher) (limit : Nat) : List Nat :=
  match _ : f.next with
  | none => []
  | some t => if _ : t ≤ limit then t :: f.rearm.ticks limit else []
termination_by f.left limit
decreasing_by exact left_rearm ‹_› ‹_›

/-- The refresher after those ticks. -/
def elapse (f : Refresher) (limit : Nat) : Refresher :=
  match _ : f.next with
  | none => f
  | some t => if _ : t ≤ limit then f.rearm.elapse limit else f
termination_by f.left limit
decreasing_by exact left_rearm ‹_› ‹_›

/-- The refresher at a time, if no tick finds the pool owned. -/
def bereft (f : Refresher) (limit : Nat) : Refresher :=
  if f.next.any (· ≤ limit) then f.abort else f

variable {f : Refresher} {s t n interval limit a b : Nat} {pos : 0 < interval}

/-! ## One tick -/

section Tick

/-- No tick comes by a time. -/
def Idle (f : Refresher) (limit : Nat) : Prop := ∀ t, f.next = some t → limit < t

theorem idle_of_dead (h : f.next = none) : f.Idle limit := fun t ht => by
  rw [h] at ht
  cases ht

theorem idle_or_due (f : Refresher) (limit : Nat) :
    f.Idle limit ∨ ∃ t, f.next = some t ∧ t ≤ limit := by
  rcases h : f.next with _ | t
  · exact .inl (idle_of_dead h)
  · rcases Nat.lt_or_ge limit t with early | due
    · refine .inl fun t' ht' => ?_
      rwa [← Option.some.inj (h.symm.trans ht')]
    · exact .inr ⟨t, rfl, due⟩

theorem ticks_due (h : f.next = some t) (ht : t ≤ limit) :
    f.ticks limit = t :: f.rearm.ticks limit := by
  rw [ticks]
  split <;> simp_all

theorem ticks_idle (h : f.Idle limit) : f.ticks limit = [] := by
  rw [ticks]
  split
  · rfl
  · exact dif_neg (Nat.not_le.2 (h _ ‹_›))

theorem elapse_due (h : f.next = some t) (ht : t ≤ limit) :
    f.elapse limit = f.rearm.elapse limit := by
  rw [elapse]
  split <;> simp_all

theorem elapse_idle (h : f.Idle limit) : f.elapse limit = f := by
  rw [elapse]
  split
  · rfl
  · exact dif_neg (Nat.not_le.2 (h _ ‹_›))

theorem bereft_due (h : f.next = some t) (ht : t ≤ limit) : f.bereft limit = f.abort := by
  rw [bereft, h, Option.any_some, if_pos (decide_eq_true ht)]

theorem bereft_idle (h : f.Idle limit) : f.bereft limit = f := by
  unfold bereft
  rcases hf : f.next with _ | t
  · rfl
  · rw [Option.any_some, if_neg (by simpa using h t hf)]

theorem bereft_bereft (f : Refresher) (hab : a ≤ b) : (f.bereft a).bereft b = f.bereft b := by
  rcases f.idle_or_due a with idle | ⟨t, hf, due⟩
  · rw [bereft_idle idle]
  · rw [bereft_due hf due, bereft_due hf (due.trans hab), bereft_idle (idle_of_dead rfl)]

theorem spawn_ended (h : maxInstantSeconds < (s + interval) / 1000) :
    spawn s interval = ended interval := dif_pos (.inr h)

/-- There is no tick at the time of the spawning. -/
theorem lt_of_spawn (h : (spawn s interval).next = some t) : s < t := by
  unfold spawn at h
  split_ifs at h with hend
  · cases h
  · rw [← Option.some.inj h]
    omega

/-- A refresher that can tell the time of its first tick is alive. -/
theorem spawn_alive (pos : 0 < interval) (tells : (s + interval) / 1000 ≤ maxInstantSeconds) :
    spawn s interval = after s pos 0 := by
  rw [spawn, dif_neg (by omega), after]
  simp only [Nat.zero_add, Nat.mul_one]

end Tick

/-! ## The tick that is next -/

section Next

variable {fs : List Refresher} {t' : Nat}

/-- No refresher ticks before the one that is next. -/
theorem le_of_nextTick (h : nextTick? fs = some (t, n)) (hf : f ∈ fs) (ht' : f.next = some t') :
    t ≤ t' := by
  obtain ⟨i, hi⟩ := List.mem_iff_getElem?.1 hf
  have hmem : (t', i) ∈ fs.zipIdx.filterMap fun x => x.1.next.map (·, x.2) :=
    List.mem_filterMap.2 ⟨(f, i), List.mem_zipIdx_iff_getElem?.2 hi, by rw [ht']; rfl⟩
  have hle := List.apply_get_minOn?_le_of_mem (f := Prod.fst) hmem
  rw [nextTick?] at h
  rwa [Option.get_of_eq_some _ h] at hle

theorem next_of_nextTick_none (h : nextTick? fs = none) (hf : f ∈ fs) : f.next = none := by
  obtain ⟨i, hi⟩ := List.mem_iff_getElem?.1 hf
  have hnil : fs.zipIdx.filterMap (fun x => x.1.next.map (·, x.2)) = [] := by
    by_contra hne
    rw [nextTick?, List.minOn?_eq_some_minOn hne] at h
    cases h
  exact Option.map_eq_none_iff.1
    (List.filterMap_eq_nil_iff.1 hnil (f, i) (List.mem_zipIdx_iff_getElem?.2 hi))

end Next

/-! ## All ticks -/

section Ticks

theorem lt_count_iff (pos : 0 < interval) :
    n < count s interval limit ↔ s + interval * (n + 1) ≤ limit := by
  have : 0 < interval * (n + 1) := Nat.mul_pos pos n.succ_pos
  rw [count, ← Nat.succ_le_iff, Nat.le_div_iff_mul_le pos, Nat.mul_comm, Nat.succ_eq_add_one]
  omega

theorem count_mono (s interval : Nat) : Monotone (count s interval) := fun _ _ hab =>
  Nat.div_le_div_right (Nat.sub_le_sub_right hab s)

theorem count_self : count s interval s = 0 := by
  rw [count, Nat.sub_self, Nat.zero_div]

theorem rearm_after : (after s pos n).rearm = after s pos (n + 1) := by
  simp only [rearm, after, Option.map_some, Refresher.mk.injEq, Option.some.injEq, true_and]
  ring

theorem idle_after (h : count s interval limit ≤ n) : (after s pos n).Idle limit := fun t ht => by
  rw [← Option.some.inj ht]
  exact Nat.lt_of_not_le fun hle => Nat.not_lt.2 h ((lt_count_iff pos).2 hle)

/-- The ticks are at the multiples of the interval that have not come before. -/
theorem ticks_after (pos : 0 < interval) (n : Nat) : (after s pos n).ticks limit
    = (List.range' n (count s interval limit - n)).map fun j => s + interval * (j + 1) := by
  induction h : count s interval limit - n generalizing n with
  | zero => exact ticks_idle (idle_after (Nat.sub_eq_zero_iff_le.1 h))
  | succ k ih =>
    have due : s + interval * (n + 1) ≤ limit := (lt_count_iff pos).1 (by omega)
    rw [ticks_due rfl due, rearm_after, ih (n + 1) (by omega), List.range'_succ, List.map_cons]

theorem elapse_after (pos : 0 < interval) (n : Nat) :
    (after s pos n).elapse limit = after s pos (max n (count s interval limit)) := by
  induction h : count s interval limit - n generalizing n with
  | zero =>
    have hle := Nat.sub_eq_zero_iff_le.1 h
    rw [elapse_idle (idle_after hle), Nat.max_eq_left hle]
  | succ k ih =>
    have due : s + interval * (n + 1) ≤ limit := (lt_count_iff pos).1 (by omega)
    rw [elapse_due rfl due, rearm_after, ih (n + 1) (by omega)]
    congr 1
    omega

/-- A refresher that has ticked all the time up to `t` goes on so. -/
theorem elapse_count (pos : 0 < interval) (t limit : Nat) :
    (after s pos (count s interval t)).elapse limit
      = after s pos (count s interval (max t limit)) := by
  rw [elapse_after, (count_mono s interval).map_max]

theorem bereft_count (pos : 0 < interval) (t : Nat) :
    (after s pos (count s interval t)).bereft t = after s pos (count s interval t) :=
  bereft_idle (idle_after (Nat.le_refl _))

theorem bereft_after : (after s pos n).bereft limit
    = if limit < s + interval * (n + 1) then after s pos n else ended interval := by
  split_ifs with early
  · exact bereft_idle fun t ht => Option.some.inj ht ▸ early
  · exact bereft_due rfl (Nat.le_of_not_lt early)

end Ticks

end Refresher

end AuctionGate
