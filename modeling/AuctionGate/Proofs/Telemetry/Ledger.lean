import AuctionGate.Telemetry.Journal
import Mathlib.Algebra.GroupWithZero.Nat
import Mathlib.Tactic.SplitIfs

/-!
# What counters and histograms read

Occurrences count counters up and do nothing else to them. So the counter of a series reads how
often the journal has touched the series, whatever else was noted (`read?_counter`). A histogram is
given samples and nothing else, and keeps them all in the order in which they came
(`samples_note`).
-/

namespace AuctionGate

variable {s k : Series} {n : Nat} {o : Occurrence}

namespace Ledger

/-- What a counter reads after so many touches. There is none before the first. -/
def counter? (n : Nat) : Option Reading := if n = 0 then none else some (.count n)

theorem increment_counter? (n : Nat) :
    some (Touch.increment.apply (counter? n)) = counter? (n + 1) := by
  unfold counter?
  split_ifs with h h'
  · omega
  · rw [h]
    rfl
  · omega
  · rfl

theorem read?_cons (k : Series) (r : Reading) (l : Ledger) (s : Series) :
    Ledger.read? ((k, r) :: l) s = if k = s then some r else l.read? s := by
  unfold read?
  rw [List.find?_cons]
  split_ifs with hk <;> simp [hk]

theorem read?_touch (s : Series) (t : Touch) (k : Series) : ∀ l : Ledger,
    Ledger.read? (l.touch s t) k = if k = s then some (t.apply (l.read? s)) else l.read? k
  | [] => by
    rw [touch, read?_cons]
    simp only [eq_comm (a := k)]
    rfl
  | (k', r) :: l => by
    rw [touch]
    by_cases hs : k' = s
    · subst hs
      rw [if_pos rfl, read?_cons, read?_cons, read?_cons, if_pos rfl]
      split_ifs <;> simp_all
    · rw [if_neg hs, read?_cons, read?_cons, read?_cons, if_neg hs, read?_touch s t k l]
      split_ifs <;> simp_all

/-- Touches that count one series up, among others. -/
theorem read?_foldl : ∀ (ts : List (Series × Touch)) (l : Ledger) (n : Nat),
    (∀ e ∈ ts, e.1 = s → e.2 = .increment) → l.read? s = counter? n →
      Ledger.read? (ts.foldl (fun l e => l.touch e.1 e.2) l) s
        = counter? (n + ts.countP (·.1 = s))
  | [], l, n, _, h => h
  | e :: ts, l, n, hts, h => by
    rw [List.foldl_cons, List.countP_cons]
    have hrest : ∀ e ∈ ts, e.1 = s → e.2 = .increment :=
      fun e he => hts e (List.mem_cons_of_mem _ he)
    by_cases he : e.1 = s
    · have hinc := hts e List.mem_cons_self he
      have hread : Ledger.read? (l.touch e.1 e.2) s = counter? (n + 1) := by
        rw [read?_touch, if_pos he.symm, he, h, hinc, increment_counter?]
      rw [read?_foldl ts _ _ hrest hread, if_pos (decide_eq_true he), Nat.add_assoc, Nat.add_comm 1]
    · have hread : Ledger.read? (l.touch e.1 e.2) s = counter? n := by
        rw [read?_touch, if_neg (Ne.symm he), h]
      rw [read?_foldl ts _ _ hrest hread]
      simp [he]

/-- How far a counter has counted. -/
def counted : Option Reading → Nat
  | some (.count n) => n
  | _ => 0

/-- The samples that a histogram holds. -/
def sampled : Option Reading → List Nat
  | some (.samples ts) => ts
  | _ => []

/-- A touch as a sample, if it is one. -/
def sample? : Touch → Option Nat
  | .sample t => some t
  | _ => none

theorem counted_counter? (n : Nat) : counted (counter? n) = n := by
  unfold counter?
  split_ifs with h
  · exact h.symm
  · rfl

theorem sampled_apply (t : Nat) (r : Option Reading) :
    sampled (some (Touch.apply (.sample t) r)) = sampled r ++ [t] := by
  rcases r with _ | _ | _ | ts <;> rfl

theorem read?_foldl_of_ne : ∀ (ts : List (Series × Touch)) (l : Ledger),
    (∀ e ∈ ts, e.1 ≠ s) → Ledger.read? (ts.foldl (fun l e => l.touch e.1 e.2) l) s = l.read? s
  | [], _, _ => rfl
  | e :: ts, l, h => by
    rw [List.foldl_cons, read?_foldl_of_ne ts _ fun e he => h e (List.mem_cons_of_mem _ he),
      read?_touch, if_neg (h e List.mem_cons_self).symm]

/-- Touches that give one series samples, among others. -/
theorem sampled_foldl : ∀ (ts : List (Series × Touch)) (l : Ledger),
    (∀ e ∈ ts, e.1 = s → ∃ t, e.2 = .sample t) →
      sampled (Ledger.read? (ts.foldl (fun l e => l.touch e.1 e.2) l) s)
        = sampled (l.read? s) ++ (ts.filter (·.1 = s)).filterMap (sample? ·.2)
  | [], l, _ => (List.append_nil _).symm
  | e :: ts, l, h => by
    rw [List.foldl_cons, sampled_foldl ts _ fun e he => h e (List.mem_cons_of_mem _ he),
      read?_touch]
    by_cases he : e.1 = s
    · obtain ⟨t, ht⟩ := h e List.mem_cons_self he
      rw [if_pos he.symm, ht, sampled_apply, he, List.append_assoc,
        List.filter_cons_of_pos (by simpa using he), List.filterMap_cons, ht]
      rfl
    · rw [if_neg (Ne.symm he), List.filter_cons_of_neg (by simpa using he)]

end Ledger

namespace Occurrence

/-- How often an occurrence touches a series. -/
def hits (s : Series) (o : Occurrence) : Nat := o.touches.countP (·.1 = s)

/-- The samples that an occurrence gives to a series. -/
def samples (s : Series) (o : Occurrence) : List Nat :=
  (o.touches.filter (·.1 = s)).filterMap (Ledger.sample? ·.2)

/-- A counter is never set, and given no samples. -/
theorem touches_counter : ∀ e ∈ o.touches, e.1.metric.kind = .counter → e.2 = .increment := by
  cases o <;> simp [touches, Metric.kind]

theorem touches_histogram :
    ∀ e ∈ o.touches, e.1.metric.kind = .histogram → ∃ t, e.2 = .sample t := by
  cases o <;> simp [touches, Metric.kind]

end Occurrence

theorem Journal.ledger_note (j : Journal) (os : List Occurrence) :
    (j.note os).ledger
      = (os.flatMap Occurrence.touches).foldl (fun l e => l.touch e.1 e.2) j.ledger := by
  simp only [ledger, history, note, List.reverse_append, List.reverse_reverse,
    List.flatMap_append, List.foldl_append]

theorem Journal.read?_counter (j : Journal) (h : s.metric.kind = .counter) :
    j.ledger.read? s = Ledger.counter? (j.map (·.hits s)).sum := by
  have hinc : ∀ e ∈ j.history.flatMap Occurrence.touches, e.1 = s → e.2 = .increment := by
    rintro e he rfl
    obtain ⟨o, -, ho⟩ := List.mem_flatMap.1 he
    exact Occurrence.touches_counter e ho h
  have hread := Ledger.read?_foldl (j.history.flatMap Occurrence.touches) [] 0 hinc rfl
  rw [List.countP_flatMap, history, List.map_reverse, List.sum_reverse, Nat.zero_add] at hread
  exact hread

namespace Journal

/-- How far the counter of a series has counted. -/
def count (j : Journal) (s : Series) : Nat := Ledger.counted (j.ledger.read? s)

/-- The samples of a series, in the order in which they came. -/
def samples (j : Journal) (s : Series) : List Nat := Ledger.sampled (j.ledger.read? s)

theorem count_note (j : Journal) (os : List Occurrence) (h : s.metric.kind = .counter) :
    (j.note os).count s = j.count s + (os.map (·.hits s)).sum := by
  rw [count, count, read?_counter _ h, read?_counter _ h, Ledger.counted_counter?,
    Ledger.counted_counter?, note, List.map_append, List.sum_append, List.map_reverse,
    List.sum_reverse, Nat.add_comm]

theorem samples_note (j : Journal) (os : List Occurrence) (h : s.metric.kind = .histogram) :
    (j.note os).samples s = j.samples s ++ os.flatMap (·.samples s) := by
  have hsample : ∀ e ∈ os.flatMap Occurrence.touches, e.1 = s → ∃ t, e.2 = .sample t := by
    rintro e he rfl
    obtain ⟨o, -, ho⟩ := List.mem_flatMap.1 he
    exact Occurrence.touches_histogram e ho h
  rw [samples, samples, ledger_note, Ledger.sampled_foldl _ _ hsample, List.filter_flatMap,
    List.filterMap_flatMap]
  rfl

/-- What touches other series only leaves this one as it was. -/
theorem read?_note_of_ne (j : Journal) {os : List Occurrence}
    (h : ∀ o ∈ os, ∀ e ∈ o.touches, e.1 ≠ s) : (j.note os).ledger.read? s = j.ledger.read? s := by
  rw [ledger_note]
  refine Ledger.read?_foldl_of_ne _ _ fun e he => ?_
  obtain ⟨o, ho, heo⟩ := List.mem_flatMap.1 he
  exact h o ho e heo

end Journal

end AuctionGate
