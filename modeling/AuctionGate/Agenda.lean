/-!
# Work that falls due

An agenda holds entries with the times at which they fall due, in the order in which they were
entered. The next one is the earliest, and of several due at one time the one entered first. An
entry can be struck out as long as it is not due.
-/

namespace AuctionGate

structure Agenda (α : Type) where
  entries : List (Nat × α) := []

namespace Agenda

variable {α σ : Type}

/-- What is done to an agenda: entries are struck out by their work, then others are entered. -/
structure Edit (α : Type) where
  strikes : α → Bool := fun _ => false
  enters : List (Nat × α) := []

def edit (a : Agenda α) (e : Edit α) : Agenda α :=
  ⟨a.entries.filter (fun w => !e.strikes w.2) ++ e.enters⟩

/-- The earliest time at which anything falls due. -/
def nextDue? (a : Agenda α) : Option Nat := (a.entries.map (·.1)).min?

/-- Takes out the next entry that is due by `limit`. -/
def pop? (a : Agenda α) (limit : Nat) : Option ((Nat × α) × Agenda α) :=
  match a.nextDue? with
  | none => none
  | some t =>
    if limit < t then none
    else
      match a.entries.span (·.1 ≠ t) with
      | (before, e :: after) => some (e, ⟨before ++ after⟩)
      | (_, []) => none

/-- Does the work due by `limit`, each piece at its own time. A piece may edit the agenda. -/
def runSteps (work : Nat → α → σ → σ × Edit α) (limit : Nat) : Nat → Agenda α → σ → Agenda α × σ
  | 0, a, s => (a, s)
  | fuel + 1, a, s =>
    match a.pop? limit with
    | none => (a, s)
    | some ((due, w), a) =>
      let (s, e) := work due w s
      runSteps work limit fuel (a.edit e) s

/-- Does the work due by `limit`, where a piece enters at most one more, which enters none. -/
def run (work : Nat → α → σ → σ × Edit α) (limit : Nat) (a : Agenda α) (s : σ) : Agenda α × σ :=
  runSteps work limit (2 * a.entries.length) a s

end Agenda

end AuctionGate
