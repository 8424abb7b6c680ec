import AuctionGate.Agenda
import Mathlib.Data.List.TakeDrop
import Mathlib.Data.List.TakeWhile
import Mathlib.Tactic.SplitIfs

/-!
# What a run of an agenda leaves

A run takes entries out one by one and has each edit what is left. What every piece of work keeps,
the whole run keeps (`runSteps_keeps`). If every piece lowers some measure of the agenda as it was
before its entry was taken out, then nothing that is due is left (`runSteps_exhausts`).
-/

namespace AuctionGate.Agenda

variable {α σ : Type} {a a' : Agenda α} {limit due : Nat} {x : α}
  {work : Nat → α → σ → σ × Edit α}

/-- An edit that strikes nothing out only enters. -/
theorem edit_of_strikes_none {e : Edit α} (h : ∀ x, e.strikes x = false) :
    a.edit e = ⟨a.entries ++ e.enters⟩ := by
  have hall : a.entries.filter (fun w => !e.strikes w.2) = a.entries :=
    List.filter_eq_self.2 fun w _ => by rw [h w.2]; rfl
  rw [edit, hall]

theorem pop?_eq_none (h : a.pop? limit = none) : ∀ e ∈ a.entries, limit < e.1 := by
  intro e he
  unfold pop? nextDue? at h
  split at h
  · rename_i hmin
    rw [List.min?_eq_none_iff, List.map_eq_nil_iff] at hmin
    rw [hmin] at he
    cases he
  · rename_i t hmin
    obtain ⟨ht, hle⟩ := List.min?_eq_some_iff.1 hmin
    split_ifs at h with hlt
    · exact Nat.lt_of_lt_of_le hlt (hle e.1 (List.mem_map_of_mem he))
    · -- the earliest entry itself stops the search
      obtain ⟨e', he', rfl⟩ := List.mem_map.1 ht
      split at h
      · cases h
      · rename_i hspan
        rw [List.span_eq_takeWhile_dropWhile, Prod.mk.injEq, List.dropWhile_eq_nil_iff] at hspan
        exact absurd (hspan.2 e' he') (by simp)

theorem pop?_of_ahead (h : ∀ e ∈ a.entries, limit < e.1) : a.pop? limit = none := by
  unfold pop? nextDue?
  split
  · rfl
  · rename_i t hmin
    obtain ⟨e, he, rfl⟩ := List.mem_map.1 (List.min?_eq_some_iff.1 hmin).1
    rw [if_pos (h e he)]

theorem pop?_of_split {before after : List (Nat × α)} (hle : due ≤ limit)
    (ha : a.entries = before ++ (due, x) :: after) (ha' : a'.entries = before ++ after)
    (hbefore : ∀ e ∈ before, due < e.1) (hafter : ∀ e ∈ after, due ≤ e.1) :
    a.pop? limit = some ((due, x), a') := by
  have hmin : a.nextDue? = some due := by
    rw [nextDue?, List.min?_eq_some_iff, ha]
    refine ⟨by simp, fun t ht => ?_⟩
    obtain ⟨e, he, rfl⟩ := List.mem_map.1 ht
    rcases List.mem_append.1 he with h | h
    · exact (hbefore e h).le
    · rcases List.mem_cons.1 h with rfl | h
      · exact le_rfl
      · exact hafter e h
  have hspan : a.entries.span (·.1 ≠ due) = (before, (due, x) :: after) := by
    have hall : ∀ e ∈ before, decide (e.1 ≠ due) = true :=
      fun e he => decide_eq_true (hbefore e he).ne'
    rw [List.span_eq_takeWhile_dropWhile, ha, List.takeWhile_append_of_pos hall,
      List.dropWhile_append_of_pos hall]
    simp
  obtain ⟨l⟩ := a'
  simp only [pop?, hmin, hspan, if_neg (Nat.not_lt.2 hle), ← ha']

/-- The next entry is the first one of the earliest time, and everything else stays in its order. -/
theorem pop?_eq_some_iff : a.pop? limit = some ((due, x), a') ↔
    due ≤ limit ∧ ∃ before after, a.entries = before ++ (due, x) :: after
      ∧ a'.entries = before ++ after ∧ (∀ e ∈ before, due < e.1) ∧ ∀ e ∈ after, due ≤ e.1 := by
  constructor
  · intro h
    unfold pop? nextDue? at h
    split at h
    · cases h
    · rename_i t hmin
      obtain ⟨-, hle⟩ := List.min?_eq_some_iff.1 hmin
      split_ifs at h with hlt
      split at h
      · rename_i before e after hspan
        simp only [Option.some.injEq, Prod.mk.injEq] at h
        obtain ⟨rfl, rfl⟩ := h
        rw [List.span_eq_takeWhile_dropWhile, Prod.mk.injEq] at hspan
        obtain ⟨hbefore, hdrop⟩ := hspan
        have hsplit : a.entries = before ++ (due, x) :: after := by
          rw [← hbefore, ← hdrop, List.takeWhile_append_dropWhile]
        have hdue : due = t := by
          have hhead := List.head?_dropWhile_not (fun e : Nat × α => decide (e.1 ≠ t)) a.entries
          rw [hdrop] at hhead
          simpa using hhead
        rw [hsplit] at hle
        refine ⟨by omega, before, after, hsplit, rfl, fun e he => ?_, fun e he => ?_⟩
        · have hle := hle e.1 (List.mem_map_of_mem (List.mem_append_left _ he))
          rw [← hbefore] at he
          have hne := List.mem_takeWhile_imp he
          simp only [ne_eq, decide_not, Bool.not_eq_true', decide_eq_false_iff_not] at hne
          omega
        · rw [hdue]
          exact hle e.1 (List.mem_map_of_mem (List.mem_append_right _ (List.mem_cons_of_mem _ he)))
      · cases h
  · rintro ⟨hle, before, after, ha, ha', hbefore, hafter⟩
    exact pop?_of_split hle ha ha' hbefore hafter

/-- What is taken out is due, and everything else stays in its order. -/
theorem pop?_eq_some (h : a.pop? limit = some ((due, x), a')) :
    due ≤ limit ∧ ∃ before after,
      a.entries = before ++ (due, x) :: after ∧ a'.entries = before ++ after := by
  obtain ⟨hdue, before, after, ha, ha', -⟩ := pop?_eq_some_iff.1 h
  exact ⟨hdue, before, after, ha, ha'⟩

/-- What is next up to a time is next up to a later time. -/
theorem pop?_mono {limit' : Nat} (hle : limit ≤ limit') (h : a.pop? limit = some ((due, x), a')) :
    a.pop? limit' = some ((due, x), a') := by
  rw [pop?_eq_some_iff] at h ⊢
  exact ⟨h.1.trans hle, h.2⟩

theorem pop?_length (h : a.pop? limit = some ((due, x), a')) :
    a'.entries.length < a.entries.length := by
  obtain ⟨-, before, after, ha, ha'⟩ := pop?_eq_some h
  rw [ha, ha', List.length_append, List.length_append, List.length_cons]
  omega

theorem run_of_ahead {s : σ} (h : ∀ e ∈ a.entries, limit < e.1) : a.run work limit s = (a, s) := by
  unfold run
  cases 2 * a.entries.length with
  | zero => rfl
  | succ n => rw [runSteps, pop?_of_ahead h]

theorem runSteps_keeps {P : Agenda α → σ → Prop}
    (hstep : ∀ {a a' due x s}, P a s → a.pop? limit = some ((due, x), a') →
      P (a'.edit (work due x s).2) (work due x s).1) :
    ∀ (fuel : Nat) (a : Agenda α) (s : σ), P a s →
      P (runSteps work limit fuel a s).1 (runSteps work limit fuel a s).2
  | 0, _, _, h => h
  | fuel + 1, a, s, h => by
    rw [runSteps]
    split
    · exact h
    · rename_i hpop
      exact runSteps_keeps hstep fuel _ _ (hstep h hpop)

/-- With fuel for a measure that every piece of work lowers, a run does all that is due. -/
theorem runSteps_exhausts (measure : Agenda α → Nat)
    (hstep : ∀ {a a' : Agenda α} {due x} {s : σ}, a.pop? limit = some ((due, x), a') →
      measure (a'.edit (work due x s).2) < measure a) :
    ∀ (fuel : Nat) (a : Agenda α) (s : σ), measure a ≤ fuel →
      (runSteps work limit fuel a s).1.pop? limit = none
  | 0, a, s, h => by
    rw [runSteps]
    rcases hpop : a.pop? limit with _ | ⟨⟨due, x⟩, a'⟩
    · rfl
    · have := hstep (s := s) hpop
      omega
  | fuel + 1, a, s, h => by
    rw [runSteps]
    split
    · assumption
    · rename_i due w a' hpop
      have hlt := hstep (s := s) hpop
      exact runSteps_exhausts measure hstep fuel _ _ (by omega)

/-- With fuel for every entry, a run that never makes the agenda longer does all that is due. -/
theorem runSteps_done
    (hstep : ∀ {a a' : Agenda α} {due x} {s : σ}, a.pop? limit = some ((due, x), a') →
      (a'.edit (work due x s).2).entries.length < a.entries.length) :
    ∀ (fuel : Nat) (a : Agenda α) (s : σ), a.entries.length ≤ fuel →
      (runSteps work limit fuel a s).1.pop? limit = none :=
  runSteps_exhausts (·.entries.length) hstep

section Trail

/-- The pieces of work that a run does, each with its time. -/
def trail (work : Nat → α → σ → σ × Edit α) (limit : Nat) : Nat → Agenda α → σ → List (Nat × α)
  | 0, _, _ => []
  | fuel + 1, a, s =>
    match a.pop? limit with
    | none => []
    | some ((due, x), a) =>
      (due, x) :: trail work limit fuel (a.edit (work due x s).2) (work due x s).1

/-- What the pieces of work have of a run is what the whole run has. -/
theorem runSteps_trail (work : Nat → α → σ → σ × Edit α) (limit : Nat)
    {Q : Agenda α → σ → List (Nat × α) → Agenda α → σ → Prop}
    (hdone : ∀ a s, Q a s [] a s)
    (hstep : ∀ {a a' due x s l b t}, a.pop? limit = some ((due, x), a') →
      Q (a'.edit (work due x s).2) (work due x s).1 l b t → Q a s ((due, x) :: l) b t) :
    ∀ (fuel : Nat) (a : Agenda α) (s : σ), Q a s (trail work limit fuel a s)
      (runSteps work limit fuel a s).1 (runSteps work limit fuel a s).2
  | 0, a, s => hdone a s
  | fuel + 1, a, s => by
    rw [runSteps, trail]
    rcases hpop : a.pop? limit with _ | ⟨⟨due, x⟩, a'⟩
    · exact hdone a s
    · exact hstep hpop (runSteps_trail work limit hdone hstep fuel _ _)

end Trail

end AuctionGate.Agenda
