import AuctionGate.Dispatch.Gathering
import Mathlib.Data.List.Perm.Basic

/-!
# Calls that come back in any order

Every completion fills the place of its own call, so completions of different calls can be
exchanged. If no call dies, what is gathered are the outcomes in the order of the calls, whatever
the order in which they came (`gather_of_perm`). If one does, nothing is (`gather_died`).
-/

namespace AuctionGate.Gathering

/-- The calls come back in their own order, each with what it brought. -/
def arrivals (settled : List Settled) : List Completion :=
  settled.zipIdx.map fun p => ⟨p.2, .settled p.1⟩

/-- A completion in its place; a call that died leaves its place as it is. -/
def fill (slots : List (Option Settled)) (c : Completion) : List (Option Settled) :=
  match c.ended with
  | .settled s => slots.set c.index (some s)
  | .died => slots

variable {settled : List Settled} {slots : List (Option Settled)} {c c' : Completion}
  {cs : List Completion}

theorem fill_settled (slots : List (Option Settled)) (i : Nat) (s : Settled) :
    fill slots ⟨i, .settled s⟩ = slots.set i (some s) := rfl

theorem place_eq_foldl : ∀ {cs : List Completion} (slots : List (Option Settled)),
    (∀ c ∈ cs, ∃ s, c.ended = .settled s) → place slots cs = .ok (cs.foldl fill slots)
  | [], _, _ => rfl
  | ⟨i, ended⟩ :: cs, slots, h => by
    obtain ⟨s, rfl⟩ : ∃ s, ended = .settled s := h _ List.mem_cons_self
    rw [place, List.foldl_cons, fill_settled]
    exact place_eq_foldl (slots.set i (some s)) fun c hc => h c (List.mem_cons_of_mem _ hc)

theorem mem_arrivals :
    c ∈ arrivals settled ↔ ∃ s, settled[c.index]? = some s ∧ c.ended = .settled s := by
  rcases c with ⟨i, ended⟩
  simp only [arrivals, List.mem_map, Prod.exists, List.mem_zipIdx_iff_getElem?,
    Completion.mk.injEq]
  constructor
  · rintro ⟨s, _, hs, rfl, rfl⟩
    exact ⟨s, hs, rfl⟩
  · rintro ⟨s, hs, rfl⟩
    exact ⟨s, i, hs, rfl, rfl⟩

theorem eq_of_mem_arrivals (h : c ∈ arrivals settled) (h' : c' ∈ arrivals settled)
    (hi : c.index = c'.index) : c = c' := by
  obtain ⟨s, hs, he⟩ := mem_arrivals.1 h
  obtain ⟨s', hs', he'⟩ := mem_arrivals.1 h'
  rw [hi, hs', Option.some.injEq] at hs
  rcases c with ⟨i, ended⟩
  rcases c' with ⟨i', ended'⟩
  simp only at hi he he'
  rw [hi, he, he', hs]

/-- Completions of different calls can be exchanged. -/
theorem fill_comm (slots : List (Option Settled)) (h : c ∈ arrivals settled)
    (h' : c' ∈ arrivals settled) : fill (fill slots c) c' = fill (fill slots c') c := by
  by_cases hi : c.index = c'.index
  · rw [eq_of_mem_arrivals h h' hi]
  · obtain ⟨s, -, he⟩ := mem_arrivals.1 h
    obtain ⟨s', -, he'⟩ := mem_arrivals.1 h'
    simp only [fill, he, he']
    exact List.set_comm _ _ hi

theorem foldl_fill_arrivals : ∀ (settled : List Settled) (before : List (Option Settled)),
    ((settled.zipIdx before.length).map fun p => Completion.mk p.2 (.settled p.1)).foldl fill
        (before ++ List.replicate settled.length none)
      = before ++ settled.map some
  | [], before => by simp
  | s :: settled, before => by
    -- The place that is filled next is the first after those filled before.
    have ih := foldl_fill_arrivals settled (before ++ [some s])
    rw [List.length_append, List.length_singleton, List.append_assoc, List.append_assoc] at ih
    rw [List.zipIdx_cons, List.map_cons, List.foldl_cons, fill_settled, List.length_cons,
      List.replicate_succ, List.set_append_right _ _ (Nat.le_refl _), Nat.sub_self,
      List.set_cons_zero]
    exact ih

theorem filled_map_some : ∀ (settled : List Settled) (i : Nat),
    filled i (settled.map some) = .ok settled
  | [], _ => rfl
  | s :: settled, i => by
    rw [List.map_cons, filled, filled_map_some settled (i + 1)]
    rfl

/-- Whatever the order in which calls come back, what they brought is gathered in the order of
the calls. -/
theorem gather_of_perm (h : cs.Perm (arrivals settled)) :
    gather settled.length cs = .ok settled := by
  have hsettled : ∀ c ∈ cs, ∃ s, c.ended = .settled s := fun c hc => by
    obtain ⟨s, -, hs⟩ := mem_arrivals.1 (h.mem_iff.1 hc)
    exact ⟨s, hs⟩
  -- Exchanging completions brings them into the order of the calls.
  have hfill : cs.foldl fill (List.replicate settled.length none) = settled.map some := by
    rw [h.foldl_eq' fun c hc c' hc' slots =>
      fill_comm slots (h.mem_iff.1 hc) (h.mem_iff.1 hc')]
    exact foldl_fill_arrivals settled []
  rw [gather, place_eq_foldl _ hsettled, hfill]
  exact filled_map_some settled 0

theorem place_died : ∀ {cs : List Completion} (slots : List (Option Settled)),
    (∃ c ∈ cs, c.ended = .died) → place slots cs = .error .callDied
  | [], _, ⟨_, hc, _⟩ => nomatch hc
  | ⟨i, ended⟩ :: cs, slots, h => by
    cases ended with
    | died => rfl
    | settled s =>
      rw [place]
      refine place_died (slots.set i (some s)) ?_
      obtain ⟨c, hc, hdied⟩ := h
      rcases List.mem_cons.1 hc with rfl | hc
      · cases hdied
      · exact ⟨c, hc, hdied⟩

/-- If a call dies nothing is gathered, whatever came back before it. -/
theorem gather_died (n : Nat) (h : ∃ c ∈ cs, c.ended = .died) : gather n cs = .error .callDied := by
  rw [gather, place_died _ h]
  rfl

end AuctionGate.Gathering
