/-!
# Sets of ids

A set of ids is its strictly increasing list, in the order of code points, which is that of the
octets in UTF-8. So two sets with the same members are equal.
-/

namespace AuctionGate

structure IdSet where
  toList : List String
  sorted : toList.Pairwise (· < ·)
  deriving DecidableEq, Repr

namespace IdSet

def insertSorted (x : String) : List String → List String
  | [] => [x]
  | y :: ys => if x < y then x :: y :: ys else if x = y then y :: ys else y :: insertSorted x ys

theorem mem_insertSorted {x z : String} : ∀ {l : List String},
    z ∈ insertSorted x l ↔ z = x ∨ z ∈ l
  | [] => by simp [insertSorted]
  | y :: ys => by
    have ih := mem_insertSorted (x := x) (z := z) (l := ys)
    simp only [insertSorted]
    split
    · simp
    · split
      · subst_vars; simp
      · simp only [List.mem_cons, ih]
        exact or_left_comm

theorem insertSorted_sorted (x : String) : ∀ {l : List String}, l.Pairwise (· < ·) →
    (insertSorted x l).Pairwise (· < ·)
  | [], _ => by simp [insertSorted]
  | y :: ys, h => by
    obtain ⟨hy, hys⟩ := List.pairwise_cons.1 h
    simp only [insertSorted]
    split
    · rename_i hxy
      refine List.pairwise_cons.2 ⟨fun z hz => ?_, h⟩
      rcases List.mem_cons.1 hz with rfl | hz
      · exact hxy
      · exact String.lt_trans hxy (hy z hz)
    · split
      · exact h
      · rename_i hxy hne
        refine List.pairwise_cons.2 ⟨fun z hz => ?_, insertSorted_sorted x hys⟩
        rcases mem_insertSorted.1 hz with rfl | hz
        · exact Std.lt_of_le_of_ne (String.not_lt.1 hxy) (Ne.symm hne)
        · exact hy z hz

instance : Membership String IdSet := ⟨fun s x => x ∈ s.toList⟩

instance (x : String) (s : IdSet) : Decidable (x ∈ s) := inferInstanceAs (Decidable (x ∈ s.toList))

def empty : IdSet := ⟨[], .nil⟩

instance : Inhabited IdSet := ⟨empty⟩

def isEmpty (s : IdSet) : Bool := s.toList.isEmpty

def insert (x : String) (s : IdSet) : IdSet :=
  ⟨insertSorted x s.toList, insertSorted_sorted x s.sorted⟩

def ofList (l : List String) : IdSet := l.foldr insert empty

/-- The members with a property. -/
def filter (p : String → Bool) (s : IdSet) : IdSet :=
  ⟨s.toList.filter p, s.sorted.filter p⟩

theorem mem_ofList {x : String} : ∀ {l : List String}, x ∈ ofList l ↔ x ∈ l
  | [] => Iff.rfl
  | y :: ys => by
    have ih := mem_ofList (x := x) (l := ys)
    refine mem_insertSorted.trans ?_
    rw [List.mem_cons]
    exact or_congr Iff.rfl ih

theorem mem_filter {x : String} {p : String → Bool} {s : IdSet} :
    x ∈ s.filter p ↔ x ∈ s ∧ p x = true :=
  List.mem_filter

end IdSet

end AuctionGate
