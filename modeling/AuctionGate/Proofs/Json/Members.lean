import AuctionGate.Json.Basic
import Mathlib.Data.List.Induction
import Mathlib.Data.List.Sort

/-!
# Members in the order of their names

Of the members of one name the last counts. Putting members into the order of their names keeps what
is found under each name, and two lists in that order are equal if the same is found under each.
-/

namespace AuctionGate.Json.Members

variable {ms ms' : Members} {name k : String} {v w : Json}

/-- In the strict order of their names, so that no name comes twice. -/
def Sorted (ms : Members) : Prop := ms.Pairwise fun x y => x.1 < y.1

/-! ### What is found under a name -/

theorem find?_nil (name : String) : find? [] name = none := rfl

theorem find?_append (ms ms' : Members) (name : String) :
    find? (ms ++ ms') name = (find? ms' name).or (find? ms name) := by
  rw [find?, List.reverse_append, List.find?_append, Option.map_or]
  rfl

theorem find?_singleton : find? [(k, v)] name = if k = name then some v else none := by
  by_cases h : k = name <;> simp [find?, h]

theorem find?_cons :
    find? ((k, v) :: ms) name = (find? ms name).or (if k = name then some v else none) := by
  rw [← List.singleton_append, find?_append, find?_singleton]

theorem find?_eq_none : find? ms name = none ↔ ∀ m ∈ ms, m.1 ≠ name := by
  simp [find?]

theorem mem_of_find? : ∀ {ms : Members}, find? ms name = some v → (name, v) ∈ ms
  | (k, w) :: ms, h => by
    rw [find?_cons] at h
    rcases Option.or_eq_some_iff.1 h with h | ⟨-, h⟩
    · exact List.mem_cons_of_mem _ (mem_of_find? h)
    · split_ifs at h with hk
      cases h
      exact hk ▸ List.mem_cons_self

theorem Sorted.lt (h : Sorted ((k, v) :: ms)) {m : String × Json} (hm : m ∈ ms) : k < m.1 :=
  (List.pairwise_cons.1 h).1 m hm

theorem Sorted.tail (h : Sorted ((k, v) :: ms)) : Sorted ms := (List.pairwise_cons.1 h).2

theorem Sorted.find?_of_mem : ∀ {ms : Members}, Sorted ms → (name, v) ∈ ms →
    find? ms name = some v
  | (k, w) :: ms, h, hm => by
    rw [find?_cons]
    rcases List.mem_cons.1 hm with heq | hm
    · cases heq
      have hnone : find? ms name = none :=
        find?_eq_none.2 fun m hm heq => String.lt_irrefl name (heq ▸ h.lt hm)
      rw [hnone, if_pos rfl, Option.none_or]
    · rw [Sorted.find?_of_mem h.tail hm, Option.some_or]

theorem Sorted.mem_iff (h : Sorted ms) : (name, v) ∈ ms ↔ find? ms name = some v :=
  ⟨h.find?_of_mem, mem_of_find?⟩

/-- Sorted members are told by what is found under each name. -/
theorem Sorted.ext (h : Sorted ms) (h' : Sorted ms')
    (hfind : ∀ name, find? ms name = find? ms' name) : ms = ms' := by
  have hirrefl : Std.Irrefl fun x y : String × Json => x.1 < y.1 := ⟨fun x => String.lt_irrefl x.1⟩
  have hantisymm : Std.Antisymm fun x y : String × Json => x.1 < y.1 :=
    ⟨fun _ _ hxy hyx => absurd (String.lt_trans hxy hyx) (String.lt_irrefl _)⟩
  refine List.Pairwise.eq_of_mem_iff h h' fun ⟨name, v⟩ => ?_
  rw [h.mem_iff, h'.mem_iff, hfind]

theorem Sorted.nodup (h : Sorted ms) : (ms.map (·.1)).Nodup :=
  List.pairwise_map.2 (h.imp fun hlt heq => String.lt_irrefl _ (lt_of_lt_of_eq hlt (Eq.symm heq)))

/-! ### Sorting -/

theorem mem_insertMember {m : String × Json} : ∀ {ms : Members},
    m ∈ insertMember name v ms → m = (name, v) ∨ m ∈ ms
  | [], h => .inl (List.mem_singleton.1 h)
  | (k, w) :: ms, h => by
    rw [insertMember] at h
    split_ifs at h with hlt heq
    · exact List.mem_cons.1 h
    · rcases List.mem_cons.1 h with h | h
      · exact .inl h
      · exact .inr (List.mem_cons_of_mem _ h)
    · rcases List.mem_cons.1 h with h | h
      · exact .inr (h ▸ List.mem_cons_self)
      · exact (mem_insertMember h).imp_right (List.mem_cons_of_mem _)

theorem sorted_insertMember (name : String) (v : Json) : ∀ {ms : Members}, Sorted ms →
    Sorted (insertMember name v ms)
  | [], _ => List.pairwise_singleton ..
  | (k, w) :: ms, h => by
    rw [insertMember]
    split_ifs with hlt heq
    · refine List.pairwise_cons.2 ⟨fun m hm => ?_, h⟩
      rcases List.mem_cons.1 hm with rfl | hm
      · exact hlt
      · exact String.lt_trans hlt (h.lt hm)
    · subst heq
      exact List.pairwise_cons.2 ⟨fun m hm => h.lt hm, h.tail⟩
    · refine List.pairwise_cons.2 ⟨fun m hm => ?_, sorted_insertMember name v h.tail⟩
      rcases mem_insertMember hm with rfl | hm
      · exact Std.lt_of_le_of_ne (String.not_lt.1 hlt) (Ne.symm heq)
      · exact h.lt hm

theorem find?_insertMember (v : Json) : ∀ {ms : Members}, Sorted ms →
    find? (insertMember k v ms) name = if k = name then some v else find? ms name
  | [], _ => find?_singleton
  | (k', w) :: ms, h => by
    have habsent : ∀ {l : Members}, (∀ m ∈ l, k < m.1) → find? l k = none := fun hl =>
      find?_eq_none.2 fun m hm heq => String.lt_irrefl k (heq ▸ hl m hm)
    by_cases hlt : k < k'
    · have hlater : ∀ m ∈ (k', w) :: ms, k < m.1 := fun m hm => by
        rcases List.mem_cons.1 hm with rfl | hm
        · exact hlt
        · exact String.lt_trans hlt (h.lt hm)
      rw [insertMember, if_pos hlt, find?_cons]
      split_ifs with hk
      · rw [← hk, habsent hlater, Option.none_or]
      · rw [Option.or_none]
    by_cases heq : k = k'
    · subst heq
      rw [insertMember, if_neg hlt, if_pos rfl, find?_cons, find?_cons]
      split_ifs with hk
      · rw [← hk, habsent fun m hm => h.lt hm, Option.none_or]
      · rfl
    · rw [insertMember, if_neg hlt, if_neg heq, find?_cons, find?_cons,
        find?_insertMember v h.tail]
      split_ifs with hk
      · rw [Option.some_or]
      all_goals rfl

theorem sortMembers_append (ms ms' : Members) :
    sortMembers (ms ++ ms') = ms'.foldl (fun acc m => insertMember m.1 m.2 acc) (sortMembers ms) :=
  List.foldl_append

theorem sortMembers_concat (ms : Members) (m : String × Json) :
    sortMembers (ms ++ [m]) = insertMember m.1 m.2 (sortMembers ms) := sortMembers_append ..

theorem sorted_sortMembers (ms : Members) : Sorted (sortMembers ms) := by
  induction ms using List.reverseRecOn with
  | nil => exact .nil
  | append_singleton ms m ih =>
    rw [sortMembers_concat]
    exact sorted_insertMember m.1 m.2 ih

/-- Sorting keeps the last member of each name. -/
theorem find?_sortMembers (ms : Members) (name : String) :
    find? (sortMembers ms) name = find? ms name := by
  induction ms using List.reverseRecOn with
  | nil => rfl
  | append_singleton ms m ih =>
    rw [sortMembers_concat, find?_insertMember _ (sorted_sortMembers ms), ih, find?_append,
      find?_singleton]
    split_ifs <;> simp

theorem Sorted.sortMembers_eq (h : Sorted ms) : sortMembers ms = ms :=
  (sorted_sortMembers ms).ext h (find?_sortMembers ms)

theorem mem_sortMembers {m : String × Json} (h : m ∈ sortMembers ms) : m ∈ ms := by
  refine mem_of_find? ?_
  rw [← find?_sortMembers]
  exact (sorted_sortMembers ms).find?_of_mem h

/-- Members under the names that have a property. -/
theorem find?_filter (p : String → Bool) : ∀ (ms : Members),
    find? (ms.filter fun m => p m.1) name = if p name then find? ms name else none
  | [] => by simp [find?]
  | (k, v) :: ms => by
    have ih := find?_filter p ms
    rw [List.filter_cons, find?_cons]
    by_cases hk : k = name
    · subst hk
      by_cases hp : p k <;> simp [hp, find?_cons, ih]
    · by_cases hp : p k <;> simp [hp, hk, find?_cons, ih]

/-- Members of which some are left out and others changed. -/
theorem Sorted.filterMap (g : String → Json → Option Json) (h : Sorted ms) :
    Sorted (ms.filterMap fun m => (g m.1 m.2).map (m.1, ·)) := by
  refine List.Pairwise.filterMap _ (fun m m' hlt x hx x' hx' => ?_) h
  obtain ⟨v, -, rfl⟩ := Option.map_eq_some_iff.1 hx
  obtain ⟨v', -, rfl⟩ := Option.map_eq_some_iff.1 hx'
  exact hlt

theorem Sorted.find?_filterMap (g : String → Json → Option Json) (h : Sorted ms) (name : String) :
    find? (ms.filterMap fun m => (g m.1 m.2).map (m.1, ·)) name
      = (find? ms name).bind (g name) := by
  ext v
  rw [← (h.filterMap g).mem_iff, List.mem_filterMap, Option.bind_eq_some_iff]
  constructor
  · rintro ⟨m, hm, hv⟩
    obtain ⟨w, hw, heq⟩ := Option.map_eq_some_iff.1 hv
    obtain ⟨rfl, rfl⟩ := Prod.mk.inj heq
    exact ⟨m.2, h.find?_of_mem hm, hw⟩
  · rintro ⟨w, hw, hv⟩
    exact ⟨(name, w), mem_of_find? hw, by simp [hv]⟩

end AuctionGate.Json.Members
