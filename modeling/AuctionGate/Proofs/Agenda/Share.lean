import AuctionGate.Proofs.Agenda

/-!
# A share of an agenda

`Clears` says that an agenda is worked off up to a time, whatever fuel that takes. Where it ends
depends on where it begins only (`Clears.unique`), and it can be done in two stages
(`Clears.trans`).

The entries of an agenda may belong to parties that have nothing to do with each other. `keep`
leaves those of one. If the work of that party can be told by what it sees of the state, and the
work of all others leaves that alone, then two agendas with the same share come to the same share
and to states that look the same, whatever else is in them (`Separate.clears`).
-/

namespace AuctionGate.Agenda

variable {α σ : Type} {a a' b b' c : Agenda α} {s s' t t' u : σ} {limit limit' due : Nat} {x : α}
  {work : Nat → α → σ → σ × Edit α} {own : α → Bool}

section Clears

/-- Everything that is due by a time is done, one piece after the other. -/
inductive Clears (work : Nat → α → σ → σ × Edit α) (limit : Nat) :
    Agenda α → σ → Agenda α → σ → Prop
  | done {a : Agenda α} {s : σ} : a.pop? limit = none → Clears work limit a s a s
  | next {a a' b : Agenda α} {s t : σ} {due : Nat} {x : α} :
    a.pop? limit = some ((due, x), a') →
    Clears work limit (a'.edit (work due x s).2) (work due x s).1 b t → Clears work limit a s b t

theorem runSteps_clears : ∀ (fuel : Nat) (a : Agenda α) (s : σ),
    (runSteps work limit fuel a s).1.pop? limit = none →
      Clears work limit a s (runSteps work limit fuel a s).1 (runSteps work limit fuel a s).2
  | 0, _, _, h => .done h
  | fuel + 1, a, s, h => by
    rw [runSteps] at h ⊢
    rcases hpop : a.pop? limit with _ | ⟨⟨due, x⟩, a'⟩
    · exact .done hpop
    · simp only [hpop] at h
      exact .next hpop (runSteps_clears fuel _ _ h)

theorem Clears.unique (h : Clears work limit a s b t) (h' : Clears work limit a s b' t') :
    b = b' ∧ t = t' := by
  induction h with
  | done hnone =>
    cases h' with
    | done => exact ⟨rfl, rfl⟩
    | next hpop =>
      rw [hnone] at hpop
      cases hpop
  | next hpop _ ih =>
    cases h' with
    | done hnone =>
      rw [hnone] at hpop
      cases hpop
    | next hpop' hrest =>
      rw [hpop] at hpop'
      cases hpop'
      exact ih hrest

theorem Clears.trans (hle : limit ≤ limit') (h : Clears work limit a s b t)
    (h' : Clears work limit' b t c u) : Clears work limit' a s c u := by
  induction h with
  | done => exact h'
  | next hpop _ ih => exact .next (pop?_mono hle hpop) (ih h')

end Clears

section Keep

/-- The entries of one party. -/
def keep (own : α → Bool) (a : Agenda α) : Agenda α := ⟨a.entries.filter (own ·.2)⟩

/-- Edits that do the same to the entries of one party. -/
structure Edit.Alike (own : α → Bool) (e e' : Edit α) : Prop where
  strikes : ∀ x, own x = true → e.strikes x = e'.strikes x
  enters : e.enters.filter (own ·.2) = e'.enters.filter (own ·.2)

theorem Edit.Alike.refl (own : α → Bool) (e : Edit α) : e.Alike own e := ⟨fun _ _ => rfl, rfl⟩

theorem edit_nil (a : Agenda α) : a.edit {} = a := by
  rw [edit_of_strikes_none fun _ => rfl, List.append_nil]

theorem keep_edit {e e' : Edit α} (ha : a.keep own = a'.keep own) (he : e.Alike own e') :
    (a.edit e).keep own = (a'.edit e').keep own := by
  have hentries : a.entries.filter (own ·.2) = a'.entries.filter (own ·.2) :=
    congrArg Agenda.entries ha
  have hkept (a : Agenda α) (e : Edit α) :
      (a.entries.filter fun w => !e.strikes w.2).filter (own ·.2)
        = (a.entries.filter (own ·.2)).filter fun w => !e.strikes w.2 := by
    simp only [List.filter_filter, Bool.and_comm]
  simp only [keep, edit, List.filter_append, he.enters, hkept, ← hentries]
  refine congrArg (fun l => Agenda.mk (l ++ _)) (List.filter_congr fun w hw => ?_)
  rw [he.strikes w.2 (List.mem_filter.1 hw).2]

theorem pop?_keep_of_none (own : α → Bool) (h : a.pop? limit = none) :
    (a.keep own).pop? limit = none :=
  pop?_of_ahead fun e he => pop?_eq_none h e ((List.mem_filter.1 he).1)

/-- What is taken out is next in the share of its party. -/
theorem pop?_keep_of_own (hx : own x = true) (h : a.pop? limit = some ((due, x), b)) :
    (a.keep own).pop? limit = some ((due, x), b.keep own) := by
  rw [pop?_eq_some_iff] at h ⊢
  obtain ⟨hdue, before, after, ha, hb, hbefore, hafter⟩ := h
  refine ⟨hdue, before.filter (own ·.2), after.filter (own ·.2), ?_, ?_,
    fun e he => hbefore e ((List.mem_filter.1 he).1),
    fun e he => hafter e ((List.mem_filter.1 he).1)⟩
  · rw [keep, ha, List.filter_append, List.filter_cons_of_pos (by exact hx)]
  · rw [keep, hb, List.filter_append]

/-- What is taken out is not missing from the share of another party. -/
theorem keep_of_pop?_foreign (hx : own x = false) (h : a.pop? limit = some ((due, x), b)) :
    b.keep own = a.keep own := by
  obtain ⟨-, before, after, ha, hb⟩ := pop?_eq_some h
  rw [keep, keep, ha, hb, List.filter_append, List.filter_append,
    List.filter_cons_of_neg (by simp [hx])]

end Keep

/-- The work of one party takes alike states to alike states with the same edits of its share, and
the work of the others changes neither. -/
structure Separate (work : Nat → α → σ → σ × Edit α) (own : α → Bool) (R : σ → σ → Prop) :
    Prop where
  symm : ∀ {s s'}, R s s' → R s' s
  acts : ∀ {due x s s'}, own x = true → R s s' →
    R (work due x s).1 (work due x s').1 ∧ (work due x s).2.Alike own (work due x s').2
  spares : ∀ {due x s s'}, own x = false → R s s' →
    R (work due x s).1 s' ∧ (work due x s).2.Alike own {}

namespace Separate

variable {R : σ → σ → Prop}

theorem keep_spares (sep : Separate work own R) (hx : own x = false)
    (hpop : a.pop? limit = some ((due, x), b)) (hR : R s s') :
    (b.edit (work due x s).2).keep own = a.keep own := by
  rw [keep_edit rfl (sep.spares hx hR).2, edit_nil, keep_of_pop?_foreign hx hpop]

/-- While nothing of a party is due, only the others have work to do. -/
theorem clears_idle (sep : Separate work own R) (h : Clears work limit a s b t)
    (hnone : (a.keep own).pop? limit = none) (hR : R s s') :
    b.keep own = a.keep own ∧ R t s' := by
  induction h with
  | done => exact ⟨rfl, hR⟩
  | @next _ _ _ _ _ _ x hpop _ ih =>
    cases hx : own x with
    | true =>
      rw [pop?_keep_of_own hx hpop] at hnone
      cases hnone
    | false =>
      have hkeep := sep.keep_spares hx hpop hR
      rw [← hkeep]
      exact ih (by rw [hkeep, hnone]) (sep.spares hx hR).1

/-- The others do what comes before the next work of a party. -/
theorem clears_until (sep : Separate work own R) {k : Agenda α}
    (h : Clears work limit a s b t) (hsome : (a.keep own).pop? limit = some ((due, x), k))
    (hR : R s s') :
    ∃ (a₁ : Agenda α) (s₁ : σ), a₁.keep own = k ∧ R s₁ s' ∧
      Clears work limit (a₁.edit (work due x s₁).2) (work due x s₁).1 b t := by
  induction h with
  | done hnone =>
    rw [pop?_keep_of_none own hnone] at hsome
    cases hsome
  | @next _ _ _ _ _ _ y hpop hrest ih =>
    cases hy : own y with
    | true =>
      rw [pop?_keep_of_own hy hpop] at hsome
      cases hsome
      exact ⟨_, _, rfl, hR, hrest⟩
    | false =>
      exact ih (by rw [sep.keep_spares hy hpop hR, hsome]) (sep.spares hy hR).1

/-- From alike states and the same share of the work a party comes to alike states and the same
share, whatever else there is to do. -/
theorem clears (sep : Separate work own R) (h : Clears work limit a s b t)
    (h' : Clears work limit a' s' b' t') (hkeep : a.keep own = a'.keep own) (hR : R s s') :
    b.keep own = b'.keep own ∧ R t t' := by
  induction h generalizing a' s' with
  | done hnone =>
    have hnone' := pop?_keep_of_none own hnone
    rw [hkeep] at hnone'
    obtain ⟨hb, ht⟩ := sep.clears_idle h' hnone' (sep.symm hR)
    exact ⟨hkeep.trans hb.symm, sep.symm ht⟩
  | @next _ _ _ _ _ _ x hpop _ ih =>
    cases hx : own x with
    | true =>
      -- the other agenda comes to the same entry, after some work of others
      have hsome := pop?_keep_of_own hx hpop
      rw [hkeep] at hsome
      obtain ⟨a₁, s₁, hk, hR₁, hrest⟩ := sep.clears_until h' hsome (sep.symm hR)
      obtain ⟨hR', hedit⟩ := sep.acts hx (sep.symm hR₁)
      exact ih hrest (keep_edit hk.symm hedit) hR'
    | false =>
      exact ih h' (by rw [sep.keep_spares hx hpop hR, hkeep]) (sep.spares hx hR).1

end Separate

end AuctionGate.Agenda
