import AuctionGate.Auction.Bid
import AuctionGate.Proofs.Json.Value

/-!
# What passes through requests and bids

A request, an impression and a bid keep the members that they do not know, each at its own level.
The encoding of what was decoded is the value that came in, up to the order of the members: of a
request exactly so, of a bid without a markup and a deal that are null and with its price as a
double. It names nothing twice, and is decoded again as the same (`decode_encode`).
-/

namespace AuctionGate

namespace Json

variable {d : Nat} {names : List String} {xs : List (Option String × Tree)}
  {extra known ms : Members} {name s : String} {v : Json}

/-- Members that are none of those named, as they come from reading. -/
structure Members.Extra (d : Nat) (names : List String) (ms : Members) : Prop where
  sorted : Members.Sorted ms
  apart : ∀ m ∈ ms, m.1 ∉ names
  settled : ∀ m ∈ ms, m.2.Settled d

namespace Tree

theorem textUnder?_iff : textUnder? name xs = some s ↔ under name xs = [.str (some s)] := by
  unfold textUnder?
  split
  · next t h => rw [h]; simp
  · next h => exact iff_of_false nofun fun heq => h _ heq

theorem ofMembers_eq : ∀ ms : Members, ofMembers ms = ms.map fun m => (some m.1, ofJson m.2)
  | [] => rfl
  | (name, v) :: rest => congrArg ((some name, ofJson v) :: ·) (ofMembers_eq rest)

theorem ofItems_eq : ∀ items : List Json, ofItems items = items.map ofJson
  | [] => rfl
  | v :: rest => congrArg (ofJson v :: ·) (ofItems_eq rest)

theorem under_ofMembers (name : String) (ms : Members) (h : ∀ m ∈ ms, m.1 ≠ name) :
    under name (ofMembers ms) = [] := by
  refine List.eq_nil_iff_forall_not_mem.2 fun t ht => ?_
  rw [mem_under, ofMembers_eq] at ht
  obtain ⟨m, hm, heq⟩ := List.mem_map.1 ht
  exact h m hm (Option.some.inj (congrArg Prod.fst heq))

/-- The other members of an object whose known members have values. -/
theorem extraValues?_spec (h : extraValues? d names xs = some extra)
    (hknown : ∀ name ∈ names, ∀ t ∈ under name xs, ∃ v, value? d t = some v) :
    extra.Extra d names ∧ ∃ vs, List.Forall₂ (Valued d) xs vs
      ∧ ∀ name, Members.find? extra name
        = if name ∈ names then none else Members.find? vs name := by
  obtain ⟨vs', hvs', rfl⟩ := Option.map_eq_some_iff.1 h
  obtain ⟨vs, hvs⟩ : ∃ vs, List.Forall₂ (Valued d) xs vs := by
    refine exists_valued fun ⟨k, t⟩ hx => ?_
    by_cases hin : ∃ name ∈ names, k = some name
    · obtain ⟨name, hname, rfl⟩ := hin
      obtain ⟨v, hv⟩ := hknown name hname t (mem_under.2 hx)
      exact ⟨(name, v), rfl, hv⟩
    · have hkept : (k, t) ∈ xs.filter fun x => !(x.1.any names.contains) := by
        refine List.mem_filter.2 ⟨hx, ?_⟩
        rcases k with _ | name
        · rfl
        · simpa using fun h => hin ⟨name, h, rfl⟩
      exact exists_of_mem (memberValues?_iff.1 hvs') hkept
  have hfilter : List.Forall₂ (Valued d) (xs.filter fun x => !(x.1.any names.contains))
      (vs.filter fun m => !(names.contains m.1)) := by
    refine List.rel_filter (fun x m hxm => ?_) hvs
    simp only [hxm.1, Option.any_some]
  have heq : vs' = vs.filter fun m => !(names.contains m.1) :=
    Option.some.inj (hvs'.symm.trans (memberValues?_iff.2 hfilter))
  have hsettled := settled_of_memberValues hvs'
  refine ⟨⟨Members.sorted_sortMembers _, fun m hm => ?_, fun m hm => ?_⟩, vs, hvs, fun name => ?_⟩
  · have hm' := Members.mem_sortMembers hm
    rw [heq, List.mem_filter] at hm'
    simpa using hm'.2
  · exact hsettled m (Members.mem_sortMembers hm)
  · rw [Members.find?_sortMembers, heq,
      Members.find?_filter fun k => !(names.contains k)]
    by_cases hname : name ∈ names <;> simp [hname]

theorem extraValues?_ofMembers (hextra : extra.Extra d names) (hknown : ∀ m ∈ known, m.1 ∈ names) :
    extraValues? d names (ofMembers (known ++ extra)) = some extra := by
  have hfilter : ((ofMembers (known ++ extra)).filter fun x => !(x.1.any names.contains))
      = ofMembers extra := by
    simp only [ofMembers_eq, List.map_append, List.filter_append]
    rw [List.filter_eq_nil_iff.2, List.filter_eq_self.2, List.nil_append]
    · intro x hx
      obtain ⟨m, hm, rfl⟩ := List.mem_map.1 hx
      simpa using hextra.apart m hm
    · intro x hx
      obtain ⟨m, hm, rfl⟩ := List.mem_map.1 hx
      simpa using hknown m hm
  have hvalues : memberValues? d (ofMembers extra) = some extra :=
    memberValues?_iff.2 (forall₂_ofMembers fun m hm => (hextra.settled m hm).again)
  refine Option.map_eq_some_iff.2 ⟨extra, ?_, hextra.sorted.sortMembers_eq⟩
  exact (congrArg (memberValues? d) hfilter).trans hvalues

/-- A known name is written where the known members are. -/
theorem under_ofMembers_known (known : Members) (hextra : extra.Extra d names)
    (hname : name ∈ names) :
    under name (ofMembers (known ++ extra)) = under name (ofMembers known) := by
  have happend : ofMembers (known ++ extra) = ofMembers known ++ ofMembers extra := by
    simp only [ofMembers_eq, List.map_append]
  rw [happend, under_append, under_ofMembers name extra fun m hm heq =>
    hextra.apart m hm (heq ▸ hname), List.append_nil]

end Tree

/-- Known members and others are an object whose normal form is told by what is found under each
name. -/
theorem normal_obj (hextra : extra.Extra d names) (hknown : ∀ m ∈ known, m.1 ∈ names)
    (hsorted : Members.Sorted ms)
    (hfind : ∀ name ∈ names, (Members.find? known name).map normal = Members.find? ms name)
    (hfind' : ∀ name ∉ names, Members.find? extra name = Members.find? ms name) :
    (Json.obj (known ++ extra)).normal = .obj ms := by
  rw [normal]
  refine congrArg Json.obj ((Members.sorted_sortMembers _).ext hsorted fun name => ?_)
  rw [Members.find?_sortMembers, find?_normalMembers, Members.find?_append]
  by_cases hname : name ∈ names
  · have hnone : Members.find? extra name = none :=
      Members.find?_eq_none.2 fun m hm heq => hextra.apart m hm (heq ▸ hname)
    rw [hnone, Option.none_or, hfind name hname]
  · have hnone : Members.find? known name = none :=
      Members.find?_eq_none.2 fun m hm heq => hname (heq ▸ hknown m hm)
    rw [hnone, Option.or_none, ← hfind' name hname]
    rcases h : Members.find? extra name with _ | v
    · rfl
    · rw [Option.map_some, (hextra.settled _ (Members.mem_of_find? h)).normal_eq]

theorem distinct_obj (hextra : extra.Extra d names) (hknown : ∀ m ∈ known, m.1 ∈ names)
    (hnodup : (known.map (·.1)).Nodup) (hdistinct : ∀ m ∈ known, m.2.Distinct) :
    (Json.obj (known ++ extra)).Distinct := by
  refine ⟨?_, distinctMembers_iff.2 fun m hm => ?_⟩
  · rw [List.map_append, List.nodup_append]
    refine ⟨hnodup, hextra.sorted.nodup, fun k hk k' hk' heq => ?_⟩
    obtain ⟨m, hm, rfl⟩ := List.mem_map.1 hk
    obtain ⟨m', hm', rfl⟩ := List.mem_map.1 hk'
    exact hextra.apart m' hm' (heq ▸ hknown m hm)
  · rcases List.mem_append.1 hm with hm | hm
    · exact hdistinct m hm
    · exact (hextra.settled m hm).distinct

end Json

open Json Json.Tree

/-! ### Impressions -/

namespace Impression

variable {d : Nat} {t : Json.Tree} {v : Json} {i : Impression}

/-- An impression and the value that it was decoded from. -/
structure Faithful (d : Nat) (v : Json) (i : Impression) : Prop where
  encoded : i.toJson.normal = v
  decoded : ofTree? d (.ofJson i.toJson) = some i
  distinct : i.toJson.Distinct
  id : v.member? "id" = some (.str i.id)
  extra : ∀ name, Members.find? i.extra name = if name ∈ ["id"] then none else v.member? name

theorem ofTree?_iff {xs : List (Option String × Json.Tree)} :
    ofTree? (d + 1) (.obj xs) = some i
      ↔ under "id" xs = [.str (some i.id)] ∧ extraValues? d ["id"] xs = some i.extra := by
  simp only [ofTree?, Option.bind_eq_bind, Option.bind_eq_some_iff, Option.some.injEq,
    textUnder?_iff]
  constructor
  · rintro ⟨id, hid, extra, hextra, rfl⟩
    exact ⟨hid, hextra⟩
  · rintro ⟨hid, hextra⟩
    exact ⟨i.id, hid, i.extra, hextra, rfl⟩

theorem faithful_of_tree (h : ofTree? d t = some i) :
    ∃ v, t.value? d = some v ∧ i.Faithful d v := by
  match d, t, h with
  | d + 1, .obj xs, h =>
    obtain ⟨hid, hextra⟩ := ofTree?_iff.1 h
    obtain ⟨hkept, vs, hvs, hothers⟩ := extraValues?_spec hextra (by simp [hid, value?])
    have hfind : Members.find? (sortMembers vs) "id" = some (.str i.id) := find?_of_under hvs hid
    have hknown : ∀ m ∈ [("id", Json.str i.id)], m.1 ∈ ["id"] := by simp
    refine ⟨_, value?_obj.2 ⟨vs, hvs, rfl⟩, ?_, ofTree?_iff.2 ⟨?_, ?_⟩, ?_, hfind, fun name => ?_⟩
    · refine normal_obj hkept hknown (Members.sorted_sortMembers vs) ?_ fun name hname => ?_
      · simp [hfind, Members.find?_singleton, normal]
      · rw [hothers, if_neg hname, Members.find?_sortMembers]
    · exact under_ofMembers_known [("id", .str i.id)] hkept (by simp)
    · exact extraValues?_ofMembers hkept hknown
    · exact distinct_obj hkept hknown (by simp) (by simp [Distinct])
    · rw [hothers, member?, Members.find?_sortMembers]

theorem mapM_iff {f : Json.Tree → Option Impression} : ∀ {ts : List Json.Tree}
    {is : List Impression}, ts.mapM f = some is ↔ List.Forall₂ (fun t i => f t = some i) ts is
  | [], is => by
    rw [List.mapM_nil, List.forall₂_nil_left_iff]
    exact ⟨fun h => (Option.some.inj h).symm, fun h => h ▸ rfl⟩
  | t :: ts, is => by
    simp only [List.mapM_cons, Option.bind_eq_bind, Option.bind_eq_some_iff, Option.pure_def,
      Option.some.injEq, List.forall₂_cons_left_iff, @mapM_iff f ts]
    constructor
    · rintro ⟨i, hi, rest, hrest, rfl⟩
      exact ⟨i, rest, hi, hrest, rfl⟩
    · rintro ⟨i, rest, hi, hrest, rfl⟩
      exact ⟨i, hi, rest, hrest, rfl⟩

theorem all_faithful : ∀ {ts : List Json.Tree} {is : List Impression},
    List.Forall₂ (fun t i => ofTree? d t = some i) ts is →
      ∃ vs, List.Forall₂ (fun t v => t.value? d = some v) ts vs
        ∧ List.Forall₂ (fun v i => i.Faithful d v) vs is
  | _, _, .nil => ⟨[], .nil, .nil⟩
  | _, _, .cons hi h => by
    obtain ⟨v, hv, hfaithful⟩ := faithful_of_tree hi
    obtain ⟨vs, hvs, hall⟩ := all_faithful h
    exact ⟨v :: vs, .cons hv hvs, .cons hfaithful hall⟩

variable {vs : List Json} {is : List Impression}

theorem all_encoded (h : List.Forall₂ (fun v i => i.Faithful d v) vs is) :
    normalItems (is.map toJson) = vs := by
  rw [normalItems_eq]
  induction h with
  | nil => rfl
  | cons hi _ ih => exact congrArg₂ _ hi.encoded ih

theorem all_decoded (h : List.Forall₂ (fun v i => i.Faithful d v) vs is) :
    (ofItems (is.map toJson)).mapM (ofTree? d) = some is := by
  rw [mapM_iff, ofItems_eq]
  induction h with
  | nil => exact .nil
  | cons hi _ ih => exact .cons hi.decoded ih

theorem all_distinct (h : List.Forall₂ (fun v i => i.Faithful d v) vs is) :
    ∀ v ∈ is.map toJson, v.Distinct := by
  induction h with
  | nil => exact nofun
  | cons hi _ ih => exact List.forall_mem_cons.2 ⟨hi.distinct, ih⟩

theorem all_ids (h : List.Forall₂ (fun v i => i.Faithful d v) vs is) (x : String) :
    x ∈ is.map Impression.id ↔ ∃ v ∈ vs, v.member? "id" = some (.str x) := by
  induction h with
  | nil => simp
  | cons hi _ ih => simp [hi.id, ih, eq_comm]

end Impression

/-! ### Requests -/

namespace Auction

variable {d : Nat} {t : Json.Tree} {v : Json} {a : Auction}

/-- A request and the value that it was decoded from. -/
structure Faithful (d : Nat) (v : Json) (a : Auction) : Prop where
  encoded : a.toJson.normal = v
  decoded : ofTree? d (.ofJson a.toJson) = some a
  distinct : a.toJson.Distinct
  id : v.member? "id" = some (.str a.id)
  extra : ∀ name,
    Members.find? a.extra name = if name ∈ ["id", "imp"] then none else v.member? name
  impressions : ∃ items, v.member? "imp" = some (.arr items)
    ∧ List.Forall₂ (fun item i => i.Faithful (d - 2) item) items a.impressions
    ∧ ∀ x, x ∈ a.impressionIds ↔ ∃ item ∈ items, item.member? "id" = some (.str x)

theorem ofTree?_iff {xs : List (Option String × Json.Tree)} :
    ofTree? (d + 2) (.obj xs) = some a
      ↔ under "id" xs = [.str (some a.id)]
        ∧ (∃ ts, under "imp" xs = [.arr ts]
            ∧ List.Forall₂ (fun t i => Impression.ofTree? d t = some i) ts a.impressions)
        ∧ extraValues? (d + 1) ["id", "imp"] xs = some a.extra := by
  simp only [ofTree?, Option.bind_eq_bind, Option.bind_eq_some_iff, textUnder?_iff]
  constructor
  · rintro ⟨id, hid, h⟩
    split at h
    · next ts himp =>
      simp only [Option.bind_eq_some_iff, Option.some.injEq] at h
      obtain ⟨is, his, extra, hextra, rfl⟩ := h
      exact ⟨hid, ⟨ts, himp, Impression.mapM_iff.1 his⟩, hextra⟩
    · cases h
  · rintro ⟨hid, ⟨ts, himp, his⟩, hextra⟩
    refine ⟨a.id, hid, ?_⟩
    simp only [himp, Impression.mapM_iff.2 his, hextra, Option.bind_some]

theorem faithful_of_tree (h : ofTree? d t = some a) :
    ∃ v, t.value? d = some v ∧ a.Faithful d v := by
  match d, t, h with
  | d + 2, .obj xs, h =>
    obtain ⟨hid, ⟨ts, himp, his⟩, hextra⟩ := ofTree?_iff.1 h
    obtain ⟨items, hitems, hall⟩ := Impression.all_faithful his
    have harr : value? (d + 1) (.arr ts) = some (.arr items) := value?_arr.2 ⟨items, hitems, rfl⟩
    obtain ⟨hkept, vs, hvs, hothers⟩ := extraValues?_spec hextra
      (by simp [hid, himp, value?, values?_iff.2 hitems])
    have hfind : Members.find? (sortMembers vs) "id" = some (.str a.id) := find?_of_under hvs hid
    have hfind' : Members.find? (sortMembers vs) "imp" = some (.arr items) :=
      (find?_of_under hvs himp).trans harr
    let known : Members :=
      [("id", .str a.id), ("imp", .arr (a.impressions.map Impression.toJson))]
    have hknown : ∀ m ∈ known, m.1 ∈ ["id", "imp"] := by simp [known]
    refine ⟨_, value?_obj.2 ⟨vs, hvs, rfl⟩, ?_, ofTree?_iff.2 ⟨?_, ?_, ?_⟩, ?_, hfind,
      fun name => ?_, items, hfind', hall, ?_⟩
    · refine normal_obj hkept hknown (Members.sorted_sortMembers vs) ?_ fun name hname => ?_
      · simp [known, hfind, hfind', Members.find?_cons, Members.find?_nil, normal,
          Impression.all_encoded hall]
      · rw [hothers, if_neg hname, Members.find?_sortMembers]
    · exact under_ofMembers_known known hkept (by simp)
    · exact ⟨_, under_ofMembers_known known hkept (by simp),
        Impression.mapM_iff.1 (Impression.all_decoded hall)⟩
    · exact extraValues?_ofMembers hkept hknown
    · refine distinct_obj hkept hknown (by simp [known]) ?_
      simpa [known, Distinct] using distinctItems_iff.2 (Impression.all_distinct hall)
    · rw [hothers, member?, Members.find?_sortMembers]
    · exact fun x => IdSet.mem_ofList.trans (Impression.all_ids hall x)

end Auction

/-! ### Bids -/

namespace Bid

variable {d : Nat} {t : Json.Tree} {v : Json} {b : Bid}

/-- A member of a bid as it is written again: the price as a double, and no markup and no deal that
is null. -/
def rewritten? (name : String) (v : Json) : Option Json :=
  if name = "price" then v.float?.map fun x => .num (.float x)
  else
    match v with
    | .null => if name = "adm" ∨ name = "dealid" then none else some v
    | v => some v

/-- A bid and the value that it was decoded from. -/
structure Faithful (d : Nat) (v : Json) (b : Bid) : Prop where
  encoded : ∃ ms, v = .obj ms ∧ b.toJson.normal
    = .obj (ms.filterMap fun m => (rewritten? m.1 m.2).map (m.1, ·))
  decoded : ofTree? d (.ofJson b.toJson) = some b
  distinct : b.toJson.Distinct
  id : v.member? "id" = some (.str b.id)
  impressionId : v.member? "impid" = some (.str b.impressionId)
  price : (v.member? "price").bind Json.float? = some b.price
  markup : b.markup = (v.member? "adm").bind Json.str?
  dealId : b.dealId = (v.member? "dealid").bind Json.str?
  extra : ∀ name,
    Members.find? b.extra name = if name ∈ names then none else v.member? name

theorem ofTree?_iff {xs : List (Option String × Json.Tree)} :
    ofTree? (d + 1) (.obj xs) = some b
      ↔ under "id" xs = [.str (some b.id)] ∧ under "impid" xs = [.str (some b.impressionId)]
        ∧ (∃ n, under "price" xs = [.num (some n)] ∧ Json.float? (.num n) = some b.price)
        ∧ optional? "adm" xs = some b.markup ∧ optional? "dealid" xs = some b.dealId
        ∧ extraValues? d names xs = some b.extra := by
  have hprice : ∀ x, price? xs = some x
      ↔ ∃ n, under "price" xs = [.num (some n)] ∧ Json.float? (.num n) = some x := by
    intro x
    unfold price?
    split
    · next n h => rcases n with _ | n <;> simp [h]
    · next h => exact iff_of_false nofun fun ⟨n, hn, _⟩ => h _ hn
  simp only [ofTree?, Option.bind_eq_bind, Option.bind_eq_some_iff, Option.some.injEq,
    textUnder?_iff, hprice]
  constructor
  · rintro ⟨id, hid, impressionId, himpid, price, hprice, markup, hmarkup, dealId, hdeal, extra,
      hextra, rfl⟩
    exact ⟨hid, himpid, hprice, hmarkup, hdeal, hextra⟩
  · rintro ⟨hid, himpid, hprice, hmarkup, hdeal, hextra⟩
    exact ⟨_, hid, _, himpid, _, hprice, _, hmarkup, _, hdeal, _, hextra, rfl⟩

/-- A text that may be missing or null is written, or nothing is, or null. -/
theorem under_of_optional {name : String} {xs : List (Option String × Json.Tree)}
    {o : Option String} (h : optional? name xs = some o) :
    (∃ s, o = some s ∧ under name xs = [.str (some s)])
      ∨ o = none ∧ (under name xs = [] ∨ under name xs = [.null]) := by
  unfold optional? at h
  split at h
  · next hnil => exact .inr ⟨(Option.some.inj h).symm, .inl hnil⟩
  · next hnull => exact .inr ⟨(Option.some.inj h).symm, .inr hnull⟩
  · next s hstr =>
    obtain ⟨s', rfl, rfl⟩ := Option.map_eq_some_iff.1 h
    exact .inl ⟨s', rfl, hstr⟩
  · cases h

/-- The members of a bid that have names of their own, as they are written. -/
def known (b : Bid) : Members :=
  [("id", .str b.id), ("impid", .str b.impressionId), ("price", .num (.float b.price))]
    ++ (b.markup.map fun s => ("adm", Json.str s)).toList
    ++ (b.dealId.map fun s => ("dealid", Json.str s)).toList

theorem known_names (b : Bid) :
    (∀ m ∈ b.known, m.1 ∈ names) ∧ (b.known.map (·.1)).Nodup ∧ ∀ m ∈ b.known, m.2.Distinct := by
  rcases b with ⟨id, impid, price, _ | adm, _ | deal, extra⟩ <;> simp [known, names, Distinct]

theorem find?_known (b : Bid) :
    Members.find? b.known "id" = some (.str b.id)
      ∧ Members.find? b.known "impid" = some (.str b.impressionId)
      ∧ Members.find? b.known "price" = some (.num (.float b.price))
      ∧ Members.find? b.known "adm" = b.markup.map .str
      ∧ Members.find? b.known "dealid" = b.dealId.map .str := by
  rcases b with ⟨id, impid, price, _ | adm, _ | deal, extra⟩ <;>
    simp [known, Members.find?_cons, Members.find?_nil]

theorem under_known (b : Bid) :
    under "id" (ofMembers b.known) = [.str (some b.id)]
      ∧ under "impid" (ofMembers b.known) = [.str (some b.impressionId)]
      ∧ under "price" (ofMembers b.known) = [.num (some (.float b.price))]
      ∧ optional? "adm" (ofMembers b.known) = some b.markup
      ∧ optional? "dealid" (ofMembers b.known) = some b.dealId := by
  rcases b with ⟨id, impid, price, _ | adm, _ | deal, extra⟩ <;>
    exact ⟨rfl, rfl, rfl, rfl, rfl⟩

theorem value_of_optional {name : String} {xs : List (Option String × Json.Tree)}
    {o : Option String} (h : optional? name xs = some o) :
    ∀ t ∈ under name xs, ∃ v, value? d t = some v := by
  obtain ⟨s, -, hs⟩ | ⟨-, hs | hs⟩ := under_of_optional h <;> simp [hs, value?]

theorem find?_of_optional {name : String} {xs : List (Option String × Json.Tree)}
    {o : Option String} {vs : Members} (hvs : List.Forall₂ (Valued d) xs vs)
    (h : optional? name xs = some o) :
    Members.find? (sortMembers vs) name = o.map .str
      ∨ o = none ∧ Members.find? (sortMembers vs) name = some .null := by
  obtain ⟨s, rfl, hs⟩ | ⟨rfl, hs | hs⟩ := under_of_optional h
  · exact .inl (find?_of_under hvs hs)
  · refine .inl ?_
    rw [Members.find?_sortMembers, find?_of_valued name hvs, hs]
    rfl
  · exact .inr ⟨rfl, find?_of_under hvs hs⟩

theorem rewritten?_of_not_mem {name : String} (h : name ∉ names) (v : Json) :
    rewritten? name v = some v := by
  simp only [names, List.mem_cons, not_or] at h
  obtain ⟨-, -, hprice, hadm, hdeal, -⟩ := h
  cases v <;> simp [rewritten?, hprice, hadm, hdeal]

/-- Null is the same as nothing. -/
theorem optional_rewritten {name : String} {o : Option String} {ms : Members}
    (hname : name = "adm" ∨ name = "dealid")
    (h : Members.find? ms name = o.map .str ∨ o = none ∧ Members.find? ms name = some .null) :
    (Members.find? ms name).bind Json.str? = o
      ∧ (Members.find? ms name).bind (rewritten? name) = o.map .str := by
  have hprice : name ≠ "price" := by rcases hname with rfl | rfl <;> decide
  obtain h | ⟨rfl, h⟩ := h
  · rcases o with _ | s <;> simp [h, Json.str?, rewritten?, hprice]
  · simp [h, Json.str?, rewritten?, hprice, hname]

theorem optional?_congr {name : String} {xs ys : List (Option String × Json.Tree)}
    (h : under name xs = under name ys) : optional? name xs = optional? name ys := by
  unfold optional?
  rw [h]

theorem decoded_of_extra (hkept : b.extra.Extra d names) :
    ofTree? (d + 1) (.ofJson b.toJson) = some b := by
  obtain ⟨hid, himpid, hprice, hmarkup, hdeal⟩ := b.under_known
  have hunder : ∀ name ∈ names, under name (ofMembers (b.known ++ b.extra))
      = under name (ofMembers b.known) :=
    fun name hname => under_ofMembers_known b.known hkept hname
  refine ofTree?_iff.2 ⟨(hunder "id" (by decide)).trans hid,
    (hunder "impid" (by decide)).trans himpid, ⟨_, (hunder "price" (by decide)).trans hprice, rfl⟩,
    (optional?_congr (hunder "adm" (by decide))).trans hmarkup,
    (optional?_congr (hunder "dealid" (by decide))).trans hdeal, ?_⟩
  exact extraValues?_ofMembers hkept b.known_names.1

theorem faithful_of_tree (h : ofTree? d t = some b) :
    ∃ v, t.value? d = some v ∧ b.Faithful d v := by
  match d, t, h with
  | d + 1, .obj xs, h =>
    obtain ⟨hid, himpid, ⟨n, hn, hprice⟩, hmarkup, hdeal, hextra⟩ := ofTree?_iff.1 h
    have hvalues : ∀ name ∈ names, ∀ t ∈ under name xs, ∃ v, value? d t = some v := by
      simp only [names, List.forall_mem_cons]
      exact ⟨by simp [hid, value?], by simp [himpid, value?], by simp [hn, value?],
        value_of_optional hmarkup, value_of_optional hdeal, List.forall_mem_nil _⟩
    obtain ⟨hkept, vs, hvs, hothers⟩ := extraValues?_spec hextra hvalues
    obtain ⟨hnames, hnodup, hdistinct⟩ := b.known_names
    obtain ⟨kid, kimpid, kprice, kadm, kdeal⟩ := b.find?_known
    have fid : Members.find? (sortMembers vs) "id" = some (.str b.id) := find?_of_under hvs hid
    have fimpid : Members.find? (sortMembers vs) "impid" = some (.str b.impressionId) :=
      find?_of_under hvs himpid
    have fprice : Members.find? (sortMembers vs) "price" = some (.num n) := find?_of_under hvs hn
    obtain ⟨sadm, radm⟩ := optional_rewritten (.inl rfl) (find?_of_optional hvs hmarkup)
    obtain ⟨sdeal, rdeal⟩ := optional_rewritten (.inr rfl) (find?_of_optional hvs hdeal)
    have hsorted := Members.sorted_sortMembers vs
    have hnormal : ∀ o : Option String, (o.map Json.str).map normal = o.map Json.str := by
      rintro (_ | s) <;> rfl
    have hencoded : (Json.obj (b.known ++ b.extra)).normal
        = .obj ((sortMembers vs).filterMap fun m => (rewritten? m.1 m.2).map (m.1, ·)) := by
      refine normal_obj hkept hnames (hsorted.filterMap rewritten?) ?_ fun name hname => ?_
      · simp only [names, List.forall_mem_cons, hsorted.find?_filterMap, kid, kimpid, kprice, kadm,
          kdeal, fid, fimpid, fprice, radm, rdeal]
        exact ⟨rfl, rfl, by simp [rewritten?, hprice, normal], hnormal _, hnormal _,
          List.forall_mem_nil _⟩
      · rw [hsorted.find?_filterMap, hothers, if_neg hname, Members.find?_sortMembers]
        rcases Members.find? vs name with _ | v
        · rfl
        · exact (rewritten?_of_not_mem hname v).symm
    refine ⟨_, value?_obj.2 ⟨vs, hvs, rfl⟩, ⟨_, rfl, hencoded⟩, decoded_of_extra hkept,
      distinct_obj hkept hnames hnodup hdistinct, fid, fimpid,
      (congrArg (·.bind Json.float?) fprice).trans hprice, sadm.symm, sdeal.symm, fun name => ?_⟩
    rw [hothers, member?, Members.find?_sortMembers]

end Bid

/-! ### What was decoded is encoded again -/

/-- Whatever is decoded as a request or as a bid has a value, and is faithful to it: it is encoded
as that value, of a bid with null markups and deals left out and the price as a double, it names
nothing twice at any level, and it is decoded again as the same. A tree can name things twice, of
which the last counts; a value written as a tree has itself as its value. -/
theorem decode_encode :
    (∀ d v a, Auction.ofTree? d (.ofJson v) = some a → a.Faithful d v.normal)
      ∧ (∀ d v b, Bid.ofTree? d (.ofJson v) = some b → b.Faithful d v.normal)
      ∧ (∀ d t a, Auction.ofTree? d t = some a → ∃ v, t.value? d = some v ∧ a.Faithful d v)
      ∧ (∀ d t b, Bid.ofTree? d t = some b → ∃ v, t.value? d = some v ∧ b.Faithful d v) := by
  refine ⟨fun d v a h => ?_, fun d v b h => ?_, fun d t a => Auction.faithful_of_tree,
    fun d t b => Bid.faithful_of_tree⟩
  · obtain ⟨w, hw, hfaithful⟩ := Auction.faithful_of_tree h
    exact value?_ofJson d v hw ▸ hfaithful
  · obtain ⟨w, hw, hfaithful⟩ := Bid.faithful_of_tree h
    exact value?_ofJson d v hw ▸ hfaithful

/-- A request with members that are not known at both levels, one of them written twice, and a bid
with a null markup, whose price is whole. -/
theorem decode_encode_unknown :
    let t : Json.Tree := .obj [(some "tmax", .num (some (.int 1))), (some "id", .str (some "a")),
      (some "imp", .arr [.obj [(some "w", .null), (some "id", .str (some "i"))]]),
      (some "tmax", .num (some (.int 500)))]
    let v : Json := .obj [("price", .num (.int 2)), ("adm", .null), ("id", .str "b"),
      ("impid", .str "i"), ("crid", .arr [])]
    (∃ a, Auction.ofTree? 3 t = some a ∧ a.toJson.normal = .obj [("id", .str "a"),
        ("imp", .arr [.obj [("id", .str "i"), ("w", .null)]]), ("tmax", .num (.int 500))]
      ∧ "i" ∈ a.impressionIds)
    ∧ ∃ b x, Bid.ofTree? 2 (.ofJson v) = some b ∧ Json.float? (.num (.int 2)) = some x
      ∧ b.toJson.normal = .obj [("crid", .arr []), ("id", .str "b"), ("impid", .str "i"),
        ("price", .num (.float x))] := by
  intro t v
  obtain ⟨-, hbid, hrequest, -⟩ := decode_encode
  refine ⟨?_, ?_⟩
  · obtain ⟨w, hw, hfaithful⟩ := hrequest 3 t _ rfl
    refine ⟨_, rfl, hfaithful.encoded.trans (Option.some.inj (hw.symm.trans ?_)), ?_⟩
    · rfl
    · exact IdSet.mem_ofList.2 (List.mem_singleton.2 rfl)
  · have hfaithful := hbid 2 v _ rfl
    obtain ⟨ms, hms, hencoded⟩ := hfaithful.encoded
    obtain rfl := Json.obj.inj hms
    exact ⟨_, _, rfl, rfl, hencoded⟩

end AuctionGate
