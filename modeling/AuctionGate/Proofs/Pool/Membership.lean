import AuctionGate.Pool.Basic
import Mathlib.Data.List.Nodup
import Mathlib.Tactic.SplitIfs

/-!
# Who is in rotation

The live addresses of a pool are some of the configured ones, each once (`Pool.Kept`), and every
operation keeps them so. What an operation does to the live set is said by one lemma for each,
which leaves the order of drawing aside.
-/

namespace AuctionGate

variable {a b z : String} {l : List String}

section Lists

theorem mem_foldl_dedup : ∀ (l acc : List String),
    (b ∈ l.foldl (fun acc a => if a ∈ acc then acc else acc ++ [a]) acc ↔ b ∈ acc ∨ b ∈ l)
  | [], acc => by simp
  | a :: l, acc => by
    rw [List.foldl_cons, mem_foldl_dedup l, List.mem_cons]
    split_ifs with ha
    · refine ⟨Or.imp_right .inr, ?_⟩
      rintro (h | rfl | h)
      · exact .inl h
      · exact .inl ha
      · exact .inr h
    · rw [List.mem_append, List.mem_singleton, or_assoc]

theorem mem_dedup : b ∈ dedup l ↔ b ∈ l := by
  rw [dedup, mem_foldl_dedup]
  simp

theorem nodup_concat (h : l.Nodup) (ha : a ∉ l) : (l ++ [a]).Nodup := by
  rw [← List.concat_eq_append]
  exact List.Nodup.concat ha h

theorem nodup_foldl_dedup : ∀ (l acc : List String), acc.Nodup →
    (l.foldl (fun acc a => if a ∈ acc then acc else acc ++ [a]) acc).Nodup
  | [], _, h => h
  | a :: l, acc, h => by
    rw [List.foldl_cons]
    refine nodup_foldl_dedup l _ ?_
    split_ifs with ha
    · exact h
    · exact nodup_concat h ha

theorem nodup_dedup (l : List String) : (dedup l).Nodup := nodup_foldl_dedup l [] .nil

theorem replace_perm : ∀ {l : List String}, a ∈ l → (l.replace a z).Perm (z :: l.erase a)
  | b :: l, h => by
    by_cases hb : b = a
    · subst hb
      simp
    · have ha : a ∈ l := (List.mem_cons.1 h).resolve_left (Ne.symm hb)
      have hne : (a == b) = false := beq_false_of_ne (Ne.symm hb)
      rw [List.erase_cons_tail (by simpa using hb), List.replace_cons, hne]
      exact ((replace_perm ha).cons b).trans (.swap ..)

/-- The item is gone, and all others are there. -/
theorem swapRemove_perm (a : String) (l : List String) : (swapRemove a l).Perm (l.erase a) := by
  rcases List.eq_nil_or_concat l with rfl | ⟨l, z, rfl⟩
  · exact .refl _
  · simp only [swapRemove, List.concat_eq_append, List.getLast?_concat]
    split_ifs with ha
    · by_cases hl : a ∈ l
      · rw [List.replace_append_left hl, List.dropLast_concat, List.erase_append_left _ hl]
        exact (replace_perm hl).trans (List.perm_append_singleton z _).symm
      · obtain rfl : a = z := by simpa [hl] using ha
        rw [List.replace_append_right hl, List.erase_append_right _ hl]
        simp
    · rw [List.erase_of_not_mem ha]

theorem mem_swapRemove (h : l.Nodup) : b ∈ swapRemove a l ↔ b ≠ a ∧ b ∈ l := by
  rw [(swapRemove_perm a l).mem_iff, h.mem_erase_iff]

theorem nodup_swapRemove (h : l.Nodup) : (swapRemove a l).Nodup :=
  (swapRemove_perm a l).nodup_iff.2 (h.erase a)

end Lists

namespace Pool

/-- The live addresses are configured ones, each once. -/
structure Kept (p : Pool) : Prop where
  configured : p.configured.Nodup
  live : p.live.Nodup
  subset : p.live ⊆ p.configured

variable {p : Pool} {t : Breaker.Transition}

theorem kept_ofAddresses (name : String) (addresses : List String) :
    (ofAddresses name addresses).Kept :=
  ⟨nodup_dedup _, nodup_dedup _, List.Subset.refl _⟩

theorem hear_configured (p : Pool) (a : String) (t : Breaker.Transition) :
    (p.hear a t).pool.configured = p.configured := by
  cases t with
  | opened =>
    simp only [hear, remove]
    split_ifs <;> rfl
  | halfOpened =>
    simp only [hear, add]
    split_ifs <;> rfl
  | closed => rfl

theorem mem_live_opened (hp : p.Kept) : b ∈ (p.hear a .opened).pool.live ↔ b ≠ a ∧ b ∈ p.live := by
  simp only [hear, remove]
  split_ifs with ha
  · exact mem_swapRemove hp.live
  · exact ⟨fun hb => ⟨ne_of_mem_of_not_mem hb ha, hb⟩, And.right⟩

theorem mem_live_halfOpened :
    b ∈ (p.hear a .halfOpened).pool.live ↔ b = a ∧ b ∈ p.configured ∨ b ∈ p.live := by
  simp only [hear, add]
  split_ifs with ha hl
  · refine ⟨.inr, ?_⟩
    rintro (⟨rfl, -⟩ | hb)
    · exact hl
    · exact hb
  · rw [List.mem_append, List.mem_singleton, or_comm]
    refine or_congr_left ⟨fun hb => ⟨hb, ?_⟩, And.left⟩
    rw [hb]
    exact ha
  · refine ⟨.inr, ?_⟩
    rintro (⟨rfl, hb⟩ | hb)
    · exact absurd hb ha
    · exact hb

theorem Kept.hear (hp : p.Kept) : (p.hear a t).pool.Kept where
  configured := by
    rw [hear_configured]
    exact hp.configured
  live := by
    cases t with
    | opened =>
      simp only [Pool.hear, remove]
      split_ifs
      · exact nodup_swapRemove hp.live
      · exact hp.live
    | halfOpened =>
      simp only [Pool.hear, add]
      split_ifs with ha hl
      · exact hp.live
      · exact nodup_concat hp.live hl
      · exact hp.live
    | closed => exact hp.live
  subset b hb := by
    rw [hear_configured]
    cases t with
    | opened => exact hp.subset ((mem_live_opened hp).1 hb).2
    | halfOpened =>
      rcases (mem_live_halfOpened).1 hb with ⟨-, hb⟩ | hb
      · exact hb
      · exact hp.subset hb
    | closed => exact hp.subset hb

theorem remove_of_not_mem (h : a ∉ p.live) : (p.remove a).pool = p := by
  rw [remove, if_neg h]

theorem add_of_mem (h : a ∈ p.configured → a ∈ p.live) : (p.add a).pool = p := by
  unfold add
  split_ifs with ha hl
  · rfl
  · exact absurd (h ha) hl
  · rfl

/-- Hearing the same again changes nothing. -/
theorem hear_hear (hp : p.Kept) : ((p.hear a t).pool.hear a t).pool = (p.hear a t).pool := by
  cases t with
  | opened => exact remove_of_not_mem fun h => ((mem_live_opened hp).1 h).1 rfl
  | halfOpened =>
    refine add_of_mem fun h => mem_live_halfOpened.2 (.inl ⟨rfl, ?_⟩)
    rwa [hear_configured] at h
  | closed => rfl

theorem Kept.refresh (hp : p.Kept) : p.refresh.pool.Kept :=
  ⟨hp.configured, hp.configured, List.Subset.refl _⟩

end Pool

end AuctionGate
