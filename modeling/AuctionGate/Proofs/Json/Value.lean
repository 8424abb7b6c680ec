import AuctionGate.Json.Reader
import AuctionGate.Proofs.Json.Members
import Mathlib.Data.List.Forall2

/-!
# The values of trees

A value that was read has its members in the order of their names, none twice, at every level, and
is read again as itself. A value written as a tree is read as its normal form.
-/

namespace AuctionGate.Json

variable {d : Nat} {v w : Json} {ms vs : Members}

/-! ### Normal form -/

theorem normalItems_eq : ∀ items : List Json, normalItems items = items.map normal
  | [] => rfl
  | v :: rest => congrArg (v.normal :: ·) (normalItems_eq rest)

theorem find?_normalMembers (name : String) : ∀ ms : Members,
    Members.find? (normalMembers ms) name = (Members.find? ms name).map normal
  | [] => rfl
  | (k, v) :: ms => by
    rw [normalMembers, Members.find?_cons, Members.find?_cons, find?_normalMembers name ms,
      Option.map_or]
    split_ifs <;> rfl

mutual

/-- No object has two members of one name. -/
def Distinct : Json → Prop
  | .arr items => DistinctItems items
  | .obj ms => (ms.map (·.1)).Nodup ∧ DistinctMembers ms
  | _ => True

def DistinctItems : List Json → Prop
  | [] => True
  | v :: rest => Distinct v ∧ DistinctItems rest

def DistinctMembers : List (String × Json) → Prop
  | [] => True
  | (_, v) :: rest => Distinct v ∧ DistinctMembers rest

end

theorem distinctItems_iff : ∀ {items : List Json},
    DistinctItems items ↔ ∀ v ∈ items, v.Distinct
  | [] => by simp [DistinctItems]
  | v :: rest => by simp [DistinctItems, @distinctItems_iff rest]

theorem distinctMembers_iff : ∀ {ms : Members}, DistinctMembers ms ↔ ∀ m ∈ ms, m.2.Distinct
  | [] => by simp [DistinctMembers]
  | (k, v) :: rest => by simp [DistinctMembers, @distinctMembers_iff rest]

namespace Tree

/-! ### Trees that have values -/

/-- A member of a tree that has a name and a value. -/
def Valued (d : Nat) (x : Option String × Tree) (m : String × Json) : Prop :=
  x.1 = some m.1 ∧ x.2.value? d = some m.2

theorem values?_iff : ∀ {ts : List Tree} {vs : List Json},
    values? d ts = some vs ↔ List.Forall₂ (fun t v => value? d t = some v) ts vs
  | [], vs => by
    rw [values?, List.forall₂_nil_left_iff]
    exact ⟨fun h => (Option.some.inj h).symm, fun h => h ▸ rfl⟩
  | t :: ts, vs => by
    simp only [values?, Option.bind_eq_bind, Option.bind_eq_some_iff, Option.some.injEq,
      List.forall₂_cons_left_iff, ← @values?_iff ts]
    constructor
    · rintro ⟨v, hv, rest, hrest, rfl⟩
      exact ⟨v, rest, hv, hrest, rfl⟩
    · rintro ⟨v, rest, hv, hrest, rfl⟩
      exact ⟨v, hv, rest, hrest, rfl⟩

theorem memberValues?_iff : ∀ {xs : List (Option String × Tree)} {vs : Members},
    memberValues? d xs = some vs ↔ List.Forall₂ (Valued d) xs vs
  | [], vs => by
    rw [memberValues?, List.forall₂_nil_left_iff]
    exact ⟨fun h => (Option.some.inj h).symm, fun h => h ▸ rfl⟩
  | (k, t) :: xs, vs => by
    simp only [memberValues?, Option.bind_eq_bind, Option.bind_eq_some_iff, Option.some.injEq,
      List.forall₂_cons_left_iff, ← @memberValues?_iff xs, Valued]
    constructor
    · rintro ⟨name, rfl, v, hv, rest, hrest, rfl⟩
      exact ⟨(name, v), rest, ⟨rfl, hv⟩, hrest, rfl⟩
    · rintro ⟨⟨name, v⟩, rest, ⟨rfl, hv⟩, hrest, rfl⟩
      exact ⟨name, rfl, v, hv, rest, hrest, rfl⟩

theorem value?_arr {ts : List Tree} :
    value? (d + 1) (.arr ts) = some v
      ↔ ∃ vs, List.Forall₂ (fun t v => value? d t = some v) ts vs ∧ .arr vs = v := by
  simp only [value?, Option.map_eq_some_iff, values?_iff]

theorem value?_obj {xs : List (Option String × Tree)} :
    value? (d + 1) (.obj xs) = some v
      ↔ ∃ vs, List.Forall₂ (Valued d) xs vs ∧ .obj (sortMembers vs) = v := by
  simp only [value?, Option.map_eq_some_iff, memberValues?_iff]

mutual

/-- A value written as a tree is read as its normal form. -/
theorem value?_ofJson : ∀ (d : Nat) (v : Json) {w : Json},
    value? d (.ofJson v) = some w → w = v.normal
  | _, .null, _, h => by cases h; rfl
  | _, .bool _, _, h => by cases h; rfl
  | _, .num _, _, h => by cases h; rfl
  | _, .str _, _, h => by cases h; rfl
  | 0, .arr _, _, h => by cases h
  | 0, .obj _, _, h => by cases h
  | d + 1, .arr items, w, h => by
    obtain ⟨vs, hvs, rfl⟩ := value?_arr.1 h
    rw [normal, values?_ofItems d items (values?_iff.2 hvs)]
  | d + 1, .obj ms, w, h => by
    obtain ⟨vs, hvs, rfl⟩ := value?_obj.1 h
    rw [normal, memberValues?_ofMembers d ms (memberValues?_iff.2 hvs)]

theorem values?_ofItems : ∀ (d : Nat) (items : List Json) {vs : List Json},
    values? d (ofItems items) = some vs → vs = normalItems items
  | _, [], _, h => by cases h; rfl
  | d, v :: rest, _, h => by
    obtain ⟨w, ws, hw, hws, rfl⟩ := List.forall₂_cons_left_iff.1 (values?_iff.1 h)
    rw [normalItems, value?_ofJson d v hw, values?_ofItems d rest (values?_iff.2 hws)]

theorem memberValues?_ofMembers : ∀ (d : Nat) (ms : Members) {vs : Members},
    memberValues? d (ofMembers ms) = some vs → vs = normalMembers ms
  | _, [], _, h => by cases h; rfl
  | d, (name, v) :: rest, _, h => by
    obtain ⟨m, ws, ⟨hk, hw⟩, hws, rfl⟩ := List.forall₂_cons_left_iff.1 (memberValues?_iff.1 h)
    have hm : m = (name, v.normal) := Prod.ext (Option.some.inj hk).symm (value?_ofJson d v hw)
    rw [normalMembers, hm, memberValues?_ofMembers d rest (memberValues?_iff.2 hws)]

end

theorem forall₂_ofItems {R : Tree → Json → Prop} : ∀ {items : List Json},
    (∀ v ∈ items, R (ofJson v) v) → List.Forall₂ R (ofItems items) items
  | [], _ => .nil
  | _ :: _, h => .cons (h _ List.mem_cons_self)
      (forall₂_ofItems fun v hv => h v (List.mem_cons_of_mem _ hv))

theorem forall₂_ofMembers : ∀ {ms : Members},
    (∀ m ∈ ms, value? d (ofJson m.2) = some m.2) → List.Forall₂ (Valued d) (ofMembers ms) ms
  | [], _ => .nil
  | _ :: _, h => .cons ⟨rfl, h _ List.mem_cons_self⟩
      (forall₂_ofMembers fun m hm => h m (List.mem_cons_of_mem _ hm))

end Tree

/-- A value as it comes from reading. -/
structure Settled (d : Nat) (v : Json) : Prop where
  again : Tree.value? d (.ofJson v) = some v
  distinct : v.Distinct

theorem Settled.normal_eq (h : v.Settled d) : v.normal = v := (Tree.value?_ofJson d v h.again).symm

namespace Tree

mutual

/-- What was read is read again as itself, and names nothing twice. -/
theorem settled_of_value : ∀ {d : Nat} {t : Tree} {v : Json}, value? d t = some v → v.Settled d
  | _, .null, _, h => by cases h; exact ⟨rfl, trivial⟩
  | _, .bool _, _, h => by cases h; exact ⟨rfl, trivial⟩
  | _, .num (some _), _, h => by cases h; exact ⟨rfl, trivial⟩
  | _, .str (some _), _, h => by cases h; exact ⟨rfl, trivial⟩
  | 0, .arr _, _, h => by cases h
  | 0, .obj _, _, h => by cases h
  | d + 1, .arr ts, _, h => by
    obtain ⟨vs, hvs, rfl⟩ := value?_arr.1 h
    have hsettled := settled_of_values (values?_iff.2 hvs)
    exact ⟨value?_arr.2 ⟨vs, forall₂_ofItems fun v hv => (hsettled v hv).again, rfl⟩,
      distinctItems_iff.2 fun v hv => (hsettled v hv).distinct⟩
  | d + 1, .obj xs, _, h => by
    obtain ⟨vs, hvs, rfl⟩ := value?_obj.1 h
    -- sorting drops members and changes none
    have hsettled : ∀ m ∈ sortMembers vs, m.2.Settled d := fun m hm =>
      settled_of_memberValues (memberValues?_iff.2 hvs) m (Members.mem_sortMembers hm)
    have hsorted := Members.sorted_sortMembers vs
    refine ⟨value?_obj.2 ⟨sortMembers vs, forall₂_ofMembers fun m hm => (hsettled m hm).again, ?_⟩,
      hsorted.nodup, distinctMembers_iff.2 fun m hm => (hsettled m hm).distinct⟩
    rw [hsorted.sortMembers_eq]

theorem settled_of_values : ∀ {d : Nat} {ts : List Tree} {vs : List Json},
    values? d ts = some vs → ∀ v ∈ vs, v.Settled d
  | _, [], _, h, _, hv => by cases h; cases hv
  | d, t :: ts, _, h, v, hv => by
    obtain ⟨w, ws, hw, hws, rfl⟩ := List.forall₂_cons_left_iff.1 (values?_iff.1 h)
    rcases List.mem_cons.1 hv with rfl | hv
    · exact settled_of_value hw
    · exact settled_of_values (values?_iff.2 hws) v hv

theorem settled_of_memberValues : ∀ {d : Nat} {xs : List (Option String × Tree)} {vs : Members},
    memberValues? d xs = some vs → ∀ m ∈ vs, m.2.Settled d
  | _, [], _, h, _, hm => by cases h; cases hm
  | d, (k, t) :: xs, _, h, m, hm => by
    obtain ⟨w, ws, hw, hws, rfl⟩ := List.forall₂_cons_left_iff.1 (memberValues?_iff.1 h)
    rcases List.mem_cons.1 hm with rfl | hm
    · exact settled_of_value hw.2
    · exact settled_of_memberValues (memberValues?_iff.2 hws) m hm

end

/-! ### Members by their names -/

variable {xs ys : List (Option String × Tree)} {t : Tree} {name : String}

theorem under_append (name : String) : ∀ (xs ys : List (Option String × Tree)),
    under name (xs ++ ys) = under name xs ++ under name ys
  | [], _ => rfl
  | (k, t) :: xs, ys => by
    rw [List.cons_append, under, under, under_append name xs ys]
    split_ifs <;> rfl

theorem mem_under : ∀ {xs : List (Option String × Tree)},
    t ∈ under name xs ↔ (some name, t) ∈ xs
  | [] => by simp [under]
  | (k, t') :: xs => by
    have ih := @mem_under xs
    rw [under]
    split_ifs with hk
    · simp [ih, hk]
    · simp [ih, Ne.symm hk]

theorem exists_of_mem : ∀ {xs : List (Option String × Tree)} {vs : Members}
    {x : Option String × Tree}, List.Forall₂ (Valued d) xs vs → x ∈ xs → ∃ m, Valued d x m
  | _ :: _, m :: _, _, .cons hm h, hx => by
    rcases List.mem_cons.1 hx with rfl | hx
    · exact ⟨m, hm⟩
    · exact exists_of_mem h hx

/-- What is found under a name is the value of the last tree written there. -/
theorem find?_of_valued (name : String) : ∀ {xs : List (Option String × Tree)} {vs : Members},
    List.Forall₂ (Valued d) xs vs →
      Members.find? vs name = (under name xs).getLast?.bind (value? d)
  | _, _, .nil => rfl
  | (k, t) :: xs, (k', v) :: vs, .cons ⟨hk, hv⟩ h => by
    cases hk
    rw [Members.find?_cons, find?_of_valued name h, under]
    by_cases hname : k' = name
    · rw [if_pos hname, if_pos (congrArg some hname), List.getLast?_cons]
      rcases hlast : (under name xs).getLast? with _ | t'
      · exact hv.symm
      · obtain ⟨m, -, hm⟩ := exists_of_mem h (mem_under.1 (List.mem_of_getLast? hlast))
        simp only [Option.bind_some, Option.getD_some]
        rw [hm, Option.some_or]
    · rw [if_neg hname, if_neg (fun h => hname (Option.some.inj h)), Option.or_none]

theorem find?_of_under {vs : Members} (hvs : List.Forall₂ (Valued d) xs vs)
    (h : under name xs = [t]) : Members.find? (sortMembers vs) name = value? d t := by
  rw [Members.find?_sortMembers, find?_of_valued name hvs, h]
  rfl

theorem exists_valued : ∀ {xs : List (Option String × Tree)}, (∀ x ∈ xs, ∃ m, Valued d x m) →
    ∃ vs, List.Forall₂ (Valued d) xs vs
  | [], _ => ⟨[], .nil⟩
  | x :: xs, h => by
    obtain ⟨m, hm⟩ := h x List.mem_cons_self
    obtain ⟨vs, hvs⟩ := exists_valued fun y hy => h y (List.mem_cons_of_mem _ hy)
    exact ⟨m :: vs, .cons hm hvs⟩

end Tree

end AuctionGate.Json
