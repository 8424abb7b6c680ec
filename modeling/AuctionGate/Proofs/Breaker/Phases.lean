import AuctionGate.Proofs.Breaker.History

/-!
# Phases

Seen from outside a breaker is in one of few phases, and `Phase.Step` says what can happen in each:
no operation starts while it is open, and it stays open for the closing delay; while it is half
open one operation starts, the probe, and only that one's return ends the phase. A history that is
a path through the phases is `Quiet`: starts between an opening and the next closing are at least
the closing delay apart, since every phase on the way has a time before which nothing starts
(`Phase.Step.resumes`).
-/

namespace AuctionGate.Circuit

open Breaker

inductive Phase where
  | closed
  | opened (since : Nat)
  /-- With the probe, once it is out. -/
  | halfOpen (probe : Option Nat)

def Phase.state : Phase → State
  | .closed => .closed
  | .opened _ => .opened
  | .halfOpen _ => .halfOpen

/-- What can happen in a phase, and the phase after it. -/
inductive Phase.Step (delay : Nat) : Phase → Entry → Phase → Prop where
  | still {φ : Phase} {x : Entry} (hs : x.starts = false) (hx : x.change = none) : Step delay φ x φ
  | start {time id : Nat} : Step delay .closed ⟨time, .started id, none⟩ .closed
  | trip {time id : Nat} :
      Step delay .closed ⟨time, .returned id, some .opened⟩ (.opened time)
  | halfOpen {since time : Nat} (h : since + delay ≤ time) :
      Step delay (.opened since) ⟨time, .rang, some .halfOpened⟩ (.halfOpen none)
  | probe {time id : Nat} :
      Step delay (.halfOpen none) ⟨time, .started id, none⟩ (.halfOpen (some id))
  | close {time id : Nat} :
      Step delay (.halfOpen (some id)) ⟨time, .returned id, some .closed⟩ .closed
  | reopen {time id : Nat} :
      Step delay (.halfOpen (some id)) ⟨time, .returned id, some .opened⟩ (.opened time)

/-- A history that leads from phase to phase. -/
inductive Path (delay : Nat) : Phase → List Entry → Phase → Prop where
  | nil {φ : Phase} : Path delay φ [] φ
  | cons {φ φ' φ'' : Phase} {x : Entry} {h : List Entry} :
      Phase.Step delay φ x φ' → Path delay φ' h φ'' → Path delay φ (x :: h) φ''

def stateOf : Transition → State
  | .opened => .opened
  | .halfOpened => .halfOpen
  | .closed => .closed

/-- The state after a history, that of its last change. -/
def stateAfter (h : List Entry) (first : State) : State :=
  h.foldl (fun state x => (x.change.map stateOf).getD state) first

/-- Nothing starts in a phase before this time, as far as it can be told at `now`. -/
def Phase.resumes (delay now : Nat) : Phase → Nat
  | .opened since => since + delay
  | .halfOpen (some _) => now + delay
  | _ => now

/-- What a history must be like for the service behind a breaker to be left alone. -/
structure Quiet (delay : Nat) (h : List Entry) : Prop where
  /-- After an opening nothing starts, and nothing changes, until the breaker is half open, which it
  is not before the delay is over. -/
  opened : ∀ before x mid y after, h = before ++ x :: (mid ++ y :: after) →
    x.change = some .opened → (∀ z ∈ mid, z.change ≠ some .halfOpened) →
      y.starts = false
        ∧ (y.change = none ∨ y.change = some .halfOpened ∧ x.time + delay ≤ y.time)
  /-- While the breaker is half open at most one operation starts, and it is this one's return that
  closes or opens the breaker. -/
  halfOpen : ∀ before x mid after, h = before ++ x :: (mid ++ after) →
    x.change = some .halfOpened → (∀ z ∈ mid, z.change ≠ some .opened ∧ z.change ≠ some .closed) →
      mid.countP Entry.starts ≤ 1
        ∧ ∀ y ∈ after.head?, y.change ≠ none →
          ∃ id, y.deed = .returned id ∧ ∃ z ∈ mid, z.deed = .started id
  /-- From an opening to the next closing starts are at least the delay apart. -/
  spaced : ∀ before x mid after, h = before ++ x :: (mid ++ after) →
    x.change = some .opened → (∀ z ∈ mid, z.change ≠ some .closed) →
      (mid.filter Entry.starts).Pairwise fun y z => y.time + delay ≤ z.time

section Paths

variable {delay now since id : Nat} {φ φ' φ'' : Phase} {x : Entry} {h h' : List Entry}

theorem Phase.eq_closed (h : φ.state = .closed) : φ = .closed := by
  cases φ with
  | closed => rfl
  | _ => cases h

theorem Phase.eq_opened (h : φ.state = .opened) : ∃ since, φ = .opened since := by
  cases φ with
  | opened since => exact ⟨since, rfl⟩
  | _ => cases h

theorem Phase.eq_halfOpen (h : φ.state = .halfOpen) : ∃ probe, φ = .halfOpen probe := by
  cases φ with
  | halfOpen probe => exact ⟨probe, rfl⟩
  | _ => cases h

theorem Path.split : ∀ {h h' : List Entry} {φ φ'' : Phase}, Path delay φ (h ++ h') φ'' →
    ∃ φ', Path delay φ h φ' ∧ Path delay φ' h' φ''
  | [], _, φ, _, hp => ⟨φ, .nil, hp⟩
  | _ :: _, _, _, _, .cons hs hp => by
    obtain ⟨φ', hp₁, hp₂⟩ := hp.split
    exact ⟨φ', .cons hs hp₁, hp₂⟩

theorem Path.at (hp : Path delay φ (h ++ x :: h') φ'') :
    ∃ φ₁ φ₂, Path delay φ h φ₁ ∧ Phase.Step delay φ₁ x φ₂ ∧ Path delay φ₂ h' φ'' := by
  obtain ⟨φ₁, hp₁, hp⟩ := hp.split
  cases hp with
  | cons hs hp₂ => exact ⟨φ₁, _, hp₁, hs, hp₂⟩

theorem Path.append (hp : Path delay φ h φ') (hp' : Path delay φ' h' φ'') :
    Path delay φ (h ++ h') φ'' := by
  induction hp with
  | nil => exact hp'
  | cons hs _ ih => exact .cons hs (ih hp')

theorem Path.single (hs : Phase.Step delay φ x φ') : Path delay φ [x] φ' := .cons hs .nil

theorem Phase.Step.state (hs : Phase.Step delay φ x φ') :
    φ'.state = (x.change.map stateOf).getD φ.state := by
  cases hs with
  | still _ hx =>
    rw [hx]
    rfl
  | _ => rfl

theorem Path.state : ∀ {h : List Entry} {φ : Phase}, Path delay φ h φ' →
    φ'.state = stateAfter h φ.state
  | [], _, .nil => rfl
  | _ :: _, _, .cons hs hp => by
    rw [stateAfter, List.foldl_cons, ← hs.state]
    exact hp.state

theorem Phase.Step.of_opened (hs : Phase.Step delay φ x φ') (hx : x.change = some .opened) :
    φ' = .opened x.time := by
  cases hs <;> simp_all

theorem Phase.Step.of_halfOpened (hs : Phase.Step delay φ x φ')
    (hx : x.change = some .halfOpened) : φ' = .halfOpen none := by
  cases hs <;> simp_all

theorem Path.opened : ∀ {h : List Entry} {φ : Phase}, Path delay (.opened since) h φ →
    (∀ x ∈ h, x.change ≠ some .halfOpened) → φ = .opened since
  | [], _, .nil, _ => rfl
  | _ :: _, _, .cons hs hp, hall => by
    obtain ⟨hx, hh⟩ := List.forall_mem_cons.1 hall
    cases hs with
    | still => exact hp.opened hh
    | halfOpen => exact absurd rfl hx

theorem Phase.Step.quiet (hs : Phase.Step delay (.opened since) x φ) :
    x.starts = false
      ∧ (x.change = none ∨ x.change = some .halfOpened ∧ since + delay ≤ x.time) := by
  cases hs with
  | still hs hx => exact ⟨hs, .inl hx⟩
  | halfOpen hle => exact ⟨rfl, .inr ⟨rfl, hle⟩⟩

/-- With its probe out a breaker stays half open until the probe is back, and nothing starts. -/
theorem Path.probed : ∀ {h : List Entry} {φ : Phase}, Path delay (.halfOpen (some id)) h φ →
    (∀ x ∈ h, x.change ≠ some .opened ∧ x.change ≠ some .closed) →
      φ = .halfOpen (some id) ∧ h.countP Entry.starts = 0
  | [], _, .nil, _ => ⟨rfl, rfl⟩
  | _ :: _, _, .cons hs hp, hall => by
    obtain ⟨hx, hh⟩ := List.forall_mem_cons.1 hall
    cases hs with
    | still hs =>
      rw [List.countP_cons_of_neg (by simp [hs])]
      exact hp.probed hh
    | close => exact absurd rfl hx.2
    | reopen => exact absurd rfl hx.1

/-- A half open breaker starts one operation, and stays half open at least until then. -/
theorem Path.halfOpen : ∀ {h : List Entry} {φ : Phase}, Path delay (.halfOpen none) h φ →
    (∀ x ∈ h, x.change ≠ some .opened ∧ x.change ≠ some .closed) →
      h.countP Entry.starts ≤ 1 ∧ (φ = .halfOpen none
        ∨ ∃ id, φ = .halfOpen (some id) ∧ ∃ x ∈ h, x.deed = .started id)
  | [], _, .nil, _ => ⟨Nat.zero_le _, .inl rfl⟩
  | _ :: _, _, .cons hs hp, hall => by
    obtain ⟨hx, hh⟩ := List.forall_mem_cons.1 hall
    cases hs with
    | still hs =>
      obtain ⟨hcount, hφ⟩ := hp.halfOpen hh
      rw [List.countP_cons_of_neg (by simp [hs])]
      refine ⟨hcount, hφ.imp_right fun ⟨id, hφ, z, hz, hd⟩ => ?_⟩
      exact ⟨id, hφ, z, List.mem_cons_of_mem _ hz, hd⟩
    | @probe _ id =>
      obtain ⟨hφ, hcount⟩ := hp.probed hh
      rw [List.countP_cons_of_pos rfl, hcount]
      exact ⟨Nat.le_refl _, .inr ⟨id, hφ, _, List.mem_cons_self, rfl⟩⟩

theorem Phase.Step.returned {probe : Option Nat} (hs : Phase.Step delay (.halfOpen probe) x φ)
    (hx : x.change ≠ none) : ∃ id, probe = some id ∧ x.deed = .returned id := by
  cases hs with
  | still _ hx' => exact absurd hx' hx
  | probe => exact absurd rfl hx
  | close => exact ⟨_, rfl, rfl⟩
  | reopen => exact ⟨_, rfl, rfl⟩

/-- A phase other than closed goes over into one that resumes no earlier, a start at that time at
the earliest, after which the next is a delay away. -/
theorem Phase.Step.resumes (hs : Phase.Step delay φ x φ') (hφ : φ ≠ .closed)
    (hx : x.change ≠ some .closed) (hnow : now ≤ x.time) :
    φ' ≠ .closed ∧ φ.resumes delay now ≤ φ'.resumes delay x.time
      ∧ (x.starts = true → φ.resumes delay now ≤ x.time
        ∧ x.time + delay ≤ φ'.resumes delay x.time) := by
  cases hs with
  | still hs =>
    refine ⟨hφ, ?_, fun hs' => absurd hs' (by simp [hs])⟩
    unfold Phase.resumes
    split <;> omega
  | start => exact absurd rfl hφ
  | trip => exact absurd rfl hφ
  | halfOpen hle => exact ⟨nofun, hle, nofun⟩
  | probe =>
    simp only [Phase.resumes] at hnow ⊢
    exact ⟨nofun, by omega, fun _ => ⟨hnow, Nat.le_refl _⟩⟩
  | close => exact absurd rfl hx
  | reopen =>
    simp only [Phase.resumes] at hnow ⊢
    exact ⟨nofun, by omega, nofun⟩

theorem Path.spaced : ∀ {h : List Entry} {φ : Phase} {now : Nat}, Path delay φ h φ' →
    φ ≠ .closed → (∀ x ∈ h, x.change ≠ some .closed) → (∀ x ∈ h, now ≤ x.time) →
    (h.Pairwise fun x y => x.time ≤ y.time) →
      (∀ x ∈ h, x.starts = true → φ.resumes delay now ≤ x.time)
        ∧ (h.filter Entry.starts).Pairwise fun x y => x.time + delay ≤ y.time
  | [], _, _, _, _, _, _, _ => ⟨nofun, .nil⟩
  | x :: h, φ, now, .cons hs hp, hφ, hh, hnow, hsorted => by
    obtain ⟨hx, hh⟩ := List.forall_mem_cons.1 hh
    obtain ⟨hnowx, -⟩ := List.forall_mem_cons.1 hnow
    obtain ⟨hafter, hsorted⟩ := List.pairwise_cons.1 hsorted
    obtain ⟨hψ, hle, hstart⟩ := hs.resumes hφ hx hnowx
    obtain ⟨hfrom, hspaced⟩ := hp.spaced hψ hh hafter hsorted
    -- `resumes` bounds all later starts from below, and a start moves it on by the delay.
    refine ⟨List.forall_mem_cons.2 ⟨fun h => (hstart h).1,
      fun y hy hys => Nat.le_trans hle (hfrom y hy hys)⟩, ?_⟩
    rw [List.filter_cons]
    split_ifs with hxs
    · refine List.pairwise_cons.2 ⟨fun y hy => ?_, hspaced⟩
      obtain ⟨hy, hys⟩ := List.mem_filter.1 hy
      exact Nat.le_trans (hstart hxs).2 (hfrom y hy hys)
    · exact hspaced

theorem Path.quiet (hp : Path delay φ h φ') (hsorted : h.Pairwise fun x y => x.time ≤ y.time) :
    Quiet delay h where
  opened before x mid y after heq hx hmid := by
    subst heq
    obtain ⟨_, _, -, hs, hp⟩ := hp.at
    cases hs.of_opened hx
    obtain ⟨_, _, hp, hs', -⟩ := hp.at
    cases hp.opened hmid
    exact hs'.quiet
  halfOpen before x mid after heq hx hmid := by
    subst heq
    obtain ⟨_, _, -, hs, hp⟩ := hp.at
    cases hs.of_halfOpened hx
    obtain ⟨ψ, hp, hp'⟩ := hp.split
    obtain ⟨hcount, hψ⟩ := hp.halfOpen hmid
    refine ⟨hcount, fun y hy hne => ?_⟩
    obtain ⟨after, rfl⟩ := List.head?_eq_some_iff.1 hy
    obtain ⟨_, _, hnil, hs', -⟩ := hp'.at (h := [])
    cases hnil
    rcases hψ with rfl | ⟨id, rfl, hout⟩
    · obtain ⟨_, hnone, -⟩ := hs'.returned hne
      cases hnone
    · obtain ⟨_, heq, hy⟩ := hs'.returned hne
      cases heq
      exact ⟨id, hy, hout⟩
  spaced before x mid after heq hx hmid := by
    subst heq
    obtain ⟨_, _, -, hs, hp⟩ := hp.at
    cases hs.of_opened hx
    obtain ⟨_, hp, -⟩ := hp.split
    obtain ⟨hafter, hsorted⟩ := List.pairwise_cons.1 (List.pairwise_append.1 hsorted).2.1
    refine (hp.spaced nofun hmid (fun y hy => hafter y (List.mem_append_left _ hy)) ?_).2
    exact (List.pairwise_append.1 hsorted).1

end Paths

end AuctionGate.Circuit
